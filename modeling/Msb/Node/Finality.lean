import Msb.Node.Replay

/-!
# Revocation and challenges

Two calls that write without looking again: `enroll` makes a device active that was not revoked when
it read the row, and `open_session` opens a session with a challenge that was unused when it read
the row. An observer of a run keeps what the tables forget: which devices have been revoked, which
challenges have opened a session, and what of this happened since a call has read.

* `run_final` — runs in which no such call is overtaken
* `not_final` — an enrolment that is overtaken by a revocation
-/

namespace Node

open Py Machine

/-! ## The observer -/

/-- The store, and the history of its devices and challenges. -/
structure Observed where
  node : NodeState
  /-- The devices whose revocation has completed. -/
  revoked : List Str
  issued : List Str
  /-- The challenges that have opened a session, one entry for each session. -/
  consumed : List Str
  /-- The accepted requests, with the devices that had been revoked before the call began. -/
  served : List (Verifying × List Str)
  revokedBefore : Nat → List Str
  /-- What was revoked since the `SELECT` of the call. -/
  revokedSince : Nat → List Str
  /-- What was consumed since the `SELECT` of the call. -/
  consumedSince : Nat → List Str

namespace Observed

/-- The challenge that the call is about to consume. -/
def opens (o : Observed) (call : Nat) : List Str :=
  match o.node.calls call with
  | some (.opening _ challenge) => [challenge]
  | _ => []

/-- The device that the call is about to make active. -/
def enrolls (o : Observed) (call : Nat) : List Str :=
  match o.node.calls call with
  | some (.enrolling deviceId _ _) => [deviceId]
  | _ => []

/-- What the observer notes. -/
def record (o : Observed) (e : NodeEvent) (t : NodeState) : Observed :=
  match e with
  | .revoke deviceId =>
    { o with
      node := t
      revoked := deviceId :: o.revoked
      revokedSince := fun k => deviceId :: o.revokedSince k }
  | .enrollCheck call .. =>
    { o with node := t, revokedSince := Function.update o.revokedSince call [] }
  | .challengeWrite _ value => { o with node := t, issued := value :: o.issued }
  | .openCheck call .. =>
    { o with node := t, consumedSince := Function.update o.consumedSince call [] }
  | .openWrite call .. =>
    { o with
      node := t
      consumed := o.opens call ++ o.consumed
      consumedSince := fun k => o.opens call ++ o.consumedSince k }
  | .requestStart call _ =>
    { o with node := t, revokedBefore := Function.update o.revokedBefore call o.revoked }
  | .requestInsert call =>
    { o with
      node := t
      served := o.served ++ (t.accepted.drop o.node.accepted.length).map fun v =>
        (v, o.revokedBefore call) }
  | _ => { o with node := t }

/-- A new store, watched from the start. -/
def init (clock : UtcTime) : Observed :=
  ⟨.init clock, [], [], [], [], fun _ => [], fun _ => [], fun _ => []⟩

end Observed

/-- A statement, and what the observer notes of it. -/
def observedStep (lib : NodeLib) (cfg : IdentitySettings) (o : Observed) (e : NodeEvent) :
    Option Observed :=
  (nodeStep lib cfg o.node e).map (o.record e)

/-! ## The property and its condition -/

/-- **Revocation and challenges are final.** -/
structure Final (o : Observed) : Prop where
  inactive : ∀ d ∈ o.node.db.devices, d.deviceId ∈ o.revoked → d.status ≠ .active
  refused : ∀ p ∈ o.served, p.1.session.deviceId ∉ p.2
  once : o.consumed.Nodup

/-- A challenge is drawn once. -/
def DrawnOnce (o : Observed) : NodeEvent → Prop
  | .challengeWrite _ value => value ∉ o.issued
  | _ => True

/-- No write is overtaken. The device of an enrolment was not revoked since the enrolment has read
its row, nor before there was a row; the challenge of a session was not consumed since it was read.
-/
def NotOvertaken (o : Observed) : NodeEvent → Prop
  | .enrollWrite call => ∀ deviceId ∈ o.enrolls call,
    deviceId ∉ o.revokedSince call ∧ (o.node.db.device deviceId = none → deviceId ∉ o.revoked)
  | .openWrite call .. => ∀ challenge ∈ o.opens call, challenge ∉ o.consumedSince call
  | _ => True

instance (o : Observed) : (e : NodeEvent) → Decidable (DrawnOnce o e)
  | .challengeWrite _ value => inferInstanceAs (Decidable (value ∉ o.issued))
  | .tick _ | .sign _ _ | .prune _ _ | .revoke _ | .enrollCheck .. | .enrollWrite _
    | .challengeCheck _ _
  | .openCheck .. | .openWrite .. | .requestStart _ _ | .requestSession _ | .requestExpiry _
    | .requestReplay _
  | .requestInsert _ | .failed _ => isTrue trivial

instance (o : Observed) : (e : NodeEvent) → Decidable (NotOvertaken o e)
  | .enrollWrite call => inferInstanceAs (Decidable (∀ deviceId ∈ o.enrolls call,
    deviceId ∉ o.revokedSince call ∧ (o.node.db.device deviceId = none → deviceId ∉ o.revoked)))
  | .openWrite call .. =>
    inferInstanceAs (Decidable (∀ challenge ∈ o.opens call, challenge ∉ o.consumedSince call))
  | .tick _ | .sign _ _ | .prune _ _ | .revoke _ | .enrollCheck .. | .challengeCheck _ _
    | .challengeWrite _ _
  | .openCheck .. | .requestStart _ _ | .requestSession _ | .requestExpiry _ | .requestReplay _
  | .requestInsert _ | .failed _ => isTrue trivial

/-! ## What a statement does -/

section

variable {lib : NodeLib} {cfg : IdentitySettings} {s t : NodeState} {e : NodeEvent}

theorem start_none {call : Nat} {check : Except PyError Stage} (h : s.start call check = some t) :
    s.calls call = none := by
  unfold NodeState.start at h
  split at h
  next hnone => exact hnone
  · cases h

/-- The statement with which a call has come to a stage. -/
def Entered (lib : NodeLib) (cfg : IdentitySettings) (s : NodeState) (e : NodeEvent) (call : Nat) :
    Stage → Prop
  | .enrolling deviceId publicKey hardwareAssurance => ∃ pairingCode,
    e = .enrollCheck call deviceId publicKey pairingCode hardwareAssurance ∧
      s.db.enrollCheck cfg deviceId publicKey pairingCode = .ok ()
  | .challenging deviceId => e = .challengeCheck call deviceId
  | .opening deviceId challenge => ∃ signature, e = .openCheck call deviceId challenge signature ∧
    s.db.openCheck lib cfg s.clock deviceId challenge signature = .ok ()
  | .timely _ _ => ∃ envelope, e = .requestStart call envelope
  | .found request checkedAt session device => e = .requestSession call ∧
    s.calls call = some (.timely request checkedAt) ∧
    s.db.sessionCheck request = .ok (session, device)
  | .live v =>
    e = .requestExpiry call ∧ s.calls call = some (.found v.request v.checkedAt v.session v.device)
  | .fresh v => e = .requestReplay call ∧ s.calls call = some (.live v)

/-- **What a statement does to the calls.** -/
theorem step_entered (h : nodeStep lib cfg s e = some t) {call : Nat} {stage : Stage}
    (hstage : t.calls call = some stage) :
    s.calls call = some stage ∨ Entered lib cfg s e call stage := by
  -- the call that moves, and where it goes
  have hmove : ∀ {moved : Nat} {stage? : Option Stage},
    t.calls = Function.update s.calls moved stage? →
      (∀ stage, stage? = some stage → Entered lib cfg s e moved stage) →
      s.calls call = some stage ∨ Entered lib cfg s e call stage := by
    intro moved stage? hcalls hentered
    rw [hcalls] at hstage
    by_cases hcall : call = moved
    · subst hcall
      rw [Function.update_self] at hstage
      exact .inr (hentered stage hstage)
    · rw [Function.update_of_ne hcall] at hstage
      exact .inl hstage
  have hsame : t.calls = s.calls → s.calls call = some stage ∨ Entered lib cfg s e call stage := by
    intro hcalls
    exact .inl (hcalls ▸ hstage)
  have hend : ∀ {moved : Nat}, t.calls = Function.update s.calls moved none →
      s.calls call = some stage ∨ Entered lib cfg s e call stage :=
    fun hcalls => hmove hcalls fun _ hstage => by cases hstage
  cases e with
  | tick | prune =>
    simp only [nodeStep] at h
    split at h
    · obtain rfl := Option.some.inj h
      exact hsame rfl
    · cases h
  | sign | revoke =>
    obtain rfl := Option.some.inj h
    exact hsame rfl
  | enrollCheck call deviceId publicKey pairingCode hardwareAssurance =>
    obtain rfl := start_eq_some h
    refine hmove rfl fun stage hstage => ?_
    obtain ⟨_, hcheck, rfl⟩ := toOption_map_eq_some.mp hstage
    exact ⟨pairingCode, rfl, hcheck⟩
  | challengeCheck call deviceId =>
    obtain rfl := start_eq_some h
    refine hmove rfl fun stage hstage => ?_
    obtain ⟨_, -, rfl⟩ := toOption_map_eq_some.mp hstage
    rfl
  | openCheck call deviceId challenge signature =>
    obtain rfl := start_eq_some h
    refine hmove rfl fun stage hstage => ?_
    obtain ⟨_, hcheck, rfl⟩ := toOption_map_eq_some.mp hstage
    exact ⟨signature, rfl, hcheck⟩
  | requestStart call envelope =>
    obtain rfl := start_eq_some h
    refine hmove rfl fun stage hstage => ?_
    obtain ⟨request, -, hcheck⟩ := bind_eq_ok.mp (toOption_eq_some.mp hstage)
    obtain ⟨_, -, hstage⟩ := bind_eq_ok.mp hcheck
    obtain rfl := Except.ok.inj hstage
    exact ⟨envelope, rfl⟩
  | enrollWrite | challengeWrite =>
    simp only [nodeStep] at h
    split at h
    · obtain rfl := Option.some.inj h
      exact hend rfl
    · cases h
  | openWrite =>
    simp only [nodeStep] at h
    split at h
    · split at h
      · obtain rfl := Option.some.inj h
        exact hend rfl
      · cases h
    · cases h
  | requestSession call =>
    simp only [nodeStep] at h
    split at h
    next request checkedAt hcall =>
      obtain rfl := Option.some.inj h
      refine hmove rfl fun stage hstage => ?_
      obtain ⟨rows, hrows, rfl⟩ := toOption_map_eq_some.mp hstage
      exact ⟨rfl, hcall, hrows⟩
    · cases h
  | requestExpiry call =>
    simp only [nodeStep] at h
    split at h
    next request checkedAt session device hcall =>
      obtain rfl := Option.some.inj h
      refine hmove rfl fun stage hstage => ?_
      obtain ⟨_, -, rfl⟩ := toOption_map_eq_some.mp hstage
      exact ⟨rfl, hcall⟩
    · cases h
  | requestReplay call =>
    simp only [nodeStep] at h
    split at h
    next v hcall =>
      obtain rfl := Option.some.inj h
      refine hmove rfl fun stage hstage => ?_
      obtain ⟨_, -, rfl⟩ := toOption_map_eq_some.mp hstage
      exact ⟨rfl, hcall⟩
    · cases h
  | requestInsert =>
    simp only [nodeStep] at h
    split at h
    · split at h
      · obtain rfl := Option.some.inj h
        exact hend rfl
      · obtain rfl := Option.some.inj h
        exact hend rfl
    · cases h
  | failed =>
    obtain rfl := Option.some.inj h
    exact hend rfl

/-- The row of a device comes from the row before, which was active if it is; or an enrolment writes
it. -/
def Descends (s : NodeState) (e : NodeEvent) (d : DeviceRow) : Prop :=
  (∃ before ∈ s.db.devices, before.deviceId = d.deviceId ∧
    (d.status = .active → before.status = .active)) ∨
    ∃ call publicKey hardwareAssurance, e = .enrollWrite call ∧
      s.calls call = some (.enrolling d.deviceId publicKey hardwareAssurance)

variable {d : DeviceRow}

theorem descends_of_map {f : DeviceRow → DeviceRow}
    (hf : ∀ d, (f d).deviceId = d.deviceId ∧ ((f d).status = .active → d.status = .active))
    (hd : d ∈ s.db.devices.map f) : Descends s e d := by
  obtain ⟨before, hbefore, rfl⟩ := List.mem_map.mp hd
  exact .inl ⟨before, hbefore, (hf before).1.symm, (hf before).2⟩

/-- **What a statement does to the devices.** -/
theorem step_devices (h : nodeStep lib cfg s e = some t) (hd : d ∈ t.db.devices) :
    Descends s e d := by
  have hsame : t.db.devices = s.db.devices → Descends s e d := fun hdevices =>
    .inl ⟨d, hdevices ▸ hd, rfl, id⟩
  cases e with
  | tick | prune =>
    simp only [nodeStep] at h
    split at h
    · obtain rfl := Option.some.inj h
      exact hsame rfl
    · cases h
  | sign | failed =>
    obtain rfl := Option.some.inj h
    exact hsame rfl
  | revoke deviceId =>
    obtain rfl := Option.some.inj h
    refine descends_of_map (fun d => ?_) hd
    split
    · exact ⟨rfl, fun h => by cases h⟩
    · exact ⟨rfl, id⟩
  | enrollCheck | challengeCheck | openCheck | requestStart =>
    obtain rfl := start_eq_some h
    exact hsame rfl
  -- an enrolment writes the row of its own device
  | enrollWrite call =>
    simp only [nodeStep] at h
    split at h
    next deviceId publicKey hardwareAssurance hcall =>
      obtain rfl := Option.some.inj h
      by_cases hid : d.deviceId = deviceId
      · exact .inr ⟨call, publicKey, hardwareAssurance, rfl, hid ▸ hcall⟩
      · unfold NodeState.write IdentityDb.enrollWrite at hd
        split at hd
        · obtain ⟨before, hbefore, rfl⟩ := List.mem_map.mp hd
          by_cases hbeforeId : before.deviceId = deviceId
          · rw [if_pos hbeforeId] at hid
            exact absurd hbeforeId hid
          · rw [if_neg hbeforeId]
            exact .inl ⟨before, hbefore, rfl, id⟩
        · rcases List.mem_append.mp hd with hd | hd
          · exact .inl ⟨d, hd, rfl, id⟩
          · obtain rfl := List.mem_singleton.mp hd
            exact absurd rfl hid
    · cases h
  | challengeWrite call value =>
    simp only [nodeStep] at h
    split at h
    · obtain rfl := Option.some.inj h
      exact hsame (challengeWrite_tables s.db _ value _).1
    · cases h
  | openWrite =>
    simp only [nodeStep] at h
    split at h
    · split at h
      · obtain rfl := Option.some.inj h
        exact hsame rfl
      · cases h
    · cases h
  | requestSession | requestExpiry | requestReplay =>
    simp only [nodeStep] at h
    split at h
    · obtain rfl := Option.some.inj h
      exact hsame rfl
    · cases h
  | requestInsert =>
    simp only [nodeStep] at h
    split at h
    · split at h
      · obtain rfl := Option.some.inj h
        exact hsame rfl
      next db hdb =>
        obtain rfl := Option.some.inj h
        unfold IdentityDb.replayInsert at hdb
        obtain ⟨_, -, hdb⟩ := bind_eq_ok.mp hdb
        obtain rfl := Except.ok.inj hdb
        refine descends_of_map (fun d => ?_) hd
        split
        · exact ⟨rfl, id⟩
        · exact ⟨rfl, id⟩
    · cases h

/-- A revocation leaves no row of its device active. -/
theorem inactive_revoke {db : IdentityDb} {deviceId : Str} (hd : d ∈ (db.revoke deviceId).devices)
    (hid : d.deviceId = deviceId) : d.status ≠ .active := by
  obtain ⟨before, -, rfl⟩ := List.mem_map.mp hd
  by_cases hbefore : before.deviceId = deviceId
  · rw [if_pos hbefore]
    exact DeviceStatus.noConfusion
  · rw [if_neg hbefore] at hid
    exact absurd hid hbefore

end

/-! ## Devices -/

section

variable {lib : NodeLib} {cfg : IdentitySettings} {o : Observed} {e : NodeEvent} {t : NodeState}

@[simp]
theorem node_record : (o.record e t).node = t := by cases e <;> rfl

variable {deviceId challenge : Str} {call : Nat} {db : IdentityDb}

theorem mem_revoked_record :
    deviceId ∈ (o.record e t).revoked ↔ e = .revoke deviceId ∨ deviceId ∈ o.revoked := by
  cases e with
  | revoke revoked => simp [Observed.record, eq_comm]
  | _ => simp [Observed.record]

/-- What is known of a call since its `SELECT`, unless this statement is that `SELECT`. -/
theorem revokedSince_record (h : nodeStep lib cfg o.node e = some t)
    (hcall : o.node.calls call ≠ none) :
    deviceId ∈ (o.record e t).revokedSince call ↔ e = .revoke deviceId ∨
        deviceId ∈ o.revokedSince call := by
  cases e with
  | revoke revoked => simp [Observed.record, eq_comm]
  | enrollCheck moved =>
    have hne : call ≠ moved := by
      rintro rfl
      exact hcall (start_none h)
    simp [Observed.record, Function.update_of_ne hne]
  | _ => simp [Observed.record]

/-- No revoked device is active, nor will an enrolment that is under way make it active. -/
structure DevicesKept (o : Observed) : Prop where
  inactive : ∀ d ∈ o.node.db.devices, d.deviceId ∈ o.revoked → d.status ≠ .active
  enrolling : ∀ call deviceId publicKey hardwareAssurance,
    o.node.calls call = some (.enrolling deviceId publicKey hardwareAssurance) →
    deviceId ∈ o.revoked →
      deviceId ∈ o.revokedSince call ∨ ∀ d ∈ o.node.db.devices, d.deviceId ≠ deviceId

theorem device_eq_none :
    db.device deviceId = none ↔ ∀ d ∈ db.devices, d.deviceId ≠ deviceId := by
  unfold IdentityDb.device
  rw [List.find?_eq_none]
  simp

/-- An enrolment that is not overtaken is not one of a revoked device. -/
theorem not_revoked_of_notOvertaken {publicKey hardwareAssurance : Str} (hinv : DevicesKept o)
    (hcall : o.node.calls call = some (.enrolling deviceId publicKey hardwareAssurance))
    (hovertaken : NotOvertaken o (.enrollWrite call)) : deviceId ∉ o.revoked := by
  intro hrevoked
  have henrolls : deviceId ∈ o.enrolls call := by
    unfold Observed.enrolls
    rw [hcall]
    exact List.mem_singleton_self _
  obtain ⟨hsince, hunknown⟩ := hovertaken deviceId henrolls
  rcases hinv.enrolling call deviceId publicKey hardwareAssurance hcall hrevoked with h | h
  · exact hsince h
  · exact hunknown (device_eq_none.mpr h) hrevoked

/-- `enroll` refuses a revoked device that it finds. -/
theorem unknown_of_enrollCheck {revoked : List Str} {publicKey pairingCode : Str}
    (hinactive : ∀ d ∈ db.devices, d.deviceId ∈ revoked → d.status ≠ .active)
    (hcheck : db.enrollCheck cfg deviceId publicKey pairingCode = .ok ())
    (hrevoked : deviceId ∈ revoked) :
    db.device deviceId = none := by
  cases hdevice : db.device deviceId with
  | none => rfl
  | some d =>
    have hid : d.deviceId = deviceId := by
      unfold IdentityDb.device at hdevice
      simpa using List.find?_some hdevice
    have hstatus : d.status ≠ .active := by
      unfold IdentityDb.device at hdevice
      exact hinactive d (List.mem_of_find?_eq_some hdevice) (hid ▸ hrevoked)
    unfold IdentityDb.enrollCheck at hcheck
    obtain ⟨_, -, hcheck⟩ := bind_eq_ok.mp hcheck
    obtain ⟨_, -, hcheck⟩ := bind_eq_ok.mp hcheck
    obtain ⟨_, -, hcheck⟩ := bind_eq_ok.mp hcheck
    split at hcheck
    · cases hcheck
    · obtain ⟨_, -, hcheck⟩ := bind_eq_ok.mp hcheck
      obtain ⟨_, hnot, -⟩ := bind_eq_ok.mp hcheck
      have hnot := raiseIf_eq_ok.mp hnot
      refine absurd ⟨d, hdevice, ?_⟩ hnot
      cases hd : d.status with
      | active => exact absurd hd hstatus
      | revoked => rfl

theorem devicesKept_step (hinv : DevicesKept o) (hovertaken : NotOvertaken o e)
    (h : nodeStep lib cfg o.node e = some t) : DevicesKept (o.record e t) := by
  constructor
  · rw [node_record]
    intro d hd hrevoked
    rcases mem_revoked_record.mp hrevoked with rfl | hrevoked
    · obtain rfl := Option.some.inj h
      exact inactive_revoke hd rfl
    · intro hactive
      rcases step_devices h hd with ⟨before, hbefore, hid, hstatus⟩
        | ⟨call, key, assurance, rfl, hcall⟩
      · exact hinv.inactive before hbefore (hid ▸ hrevoked) (hstatus hactive)
      · exact not_revoked_of_notOvertaken hinv hcall hovertaken hrevoked
  · rw [node_record]
    intro call deviceId key assurance hcall hrevoked
    rcases step_entered h hcall with hcall | ⟨pairingCode, rfl, hcheck⟩
    · rw [revokedSince_record h (by rw [hcall]; exact Option.some_ne_none _)]
      rcases mem_revoked_record.mp hrevoked with rfl | hrevoked
      · exact .inl (.inl rfl)
      · rcases hinv.enrolling call deviceId key assurance hcall hrevoked with hsince | hunknown
        · exact .inl (.inr hsince)
        · refine .inr fun d hd hid => ?_
          rcases step_devices h hd with ⟨before, hbefore, hbeforeId, -⟩
            | ⟨moved, key', assurance', rfl, hmoved⟩
          · exact hunknown before hbefore (hbeforeId.trans hid)
          · -- another enrolment of the device has written its row
            rw [hid] at hmoved
            exact not_revoked_of_notOvertaken hinv hmoved hovertaken hrevoked
    · have hold : deviceId ∈ o.revoked := (mem_revoked_record.mp hrevoked).resolve_left fun h => by
        cases h
      obtain rfl := start_eq_some h
      exact .inr (device_eq_none.mp (unknown_of_enrollCheck hinv.inactive hcheck hold))

/-! ## Requests -/

theorem mem_revokedBefore_record (h : deviceId ∈ (o.record e t).revokedBefore call) :
    (∃ envelope, e = .requestStart call envelope ∧ deviceId ∈ o.revoked) ∨
    deviceId ∈ o.revokedBefore call := by
  cases e with
  | requestStart moved envelope =>
    by_cases hmoved : call = moved
    · subst hmoved
      simp only [Observed.record, Function.update_self] at h
      exact .inl ⟨envelope, rfl, h⟩
    · simp only [Observed.record, Function.update_of_ne hmoved] at h
      exact .inr h
  | _ => exact .inr h

/-- The rows that a request is checked against. -/
def Stage.rows : Stage → Option (SessionRow × DeviceRow)
  | .found _ _ session device => some (session, device)
  | .live v | .fresh v => some (v.session, v.device)
  | _ => none

/-- No call that began after the revocation of a device has found the device active. -/
structure RequestsRefused (o : Observed) : Prop where
  before : ∀ call deviceId, deviceId ∈ o.revokedBefore call → deviceId ∈ o.revoked
  found : ∀ call stage session device, o.node.calls call = some stage →
    stage.rows = some (session, device) → session.deviceId ∉ o.revokedBefore call
  refused : ∀ p ∈ o.served, p.1.session.deviceId ∉ p.2

theorem revokedBefore_record (h : nodeStep lib cfg o.node e = some t)
    (hcall : o.node.calls call ≠ none) (hmem : deviceId ∈ (o.record e t).revokedBefore call) :
    deviceId ∈ o.revokedBefore call := by
  rcases mem_revokedBefore_record hmem with ⟨envelope, rfl, -⟩ | hmem
  · exact absurd (start_none h) hcall
  · exact hmem

theorem active_of_sessionCheck {r : Request} {session : SessionRow} {device : DeviceRow}
    (h : db.sessionCheck r = .ok (session, device)) : device.status = .active := by
  unfold IdentityDb.sessionCheck at h
  split at h
  · cases h
  · split at h
    · cases h
    · split at h
      next hactive =>
        obtain ⟨-, rfl⟩ := Prod.mk.inj (Except.ok.inj h)
        exact hactive.2
      · cases h

theorem mem_served_record {p : Verifying × List Str} (h : nodeStep lib cfg o.node e = some t)
    (hp : p ∈ (o.record e t).served) :
    p ∈ o.served ∨ ∃ call, o.node.calls call = some (.fresh p.1) ∧ p.2 = o.revokedBefore call := by
  cases e with
  | requestInsert call =>
    rcases List.mem_append.mp hp with hp | hp
    · exact .inl hp
    · obtain ⟨v, hv, rfl⟩ := List.mem_map.mp hp
      simp only [nodeStep] at h
      split at h
      next fresh hcall =>
        split at h
        · obtain rfl := Option.some.inj h
          rw [show (o.node.setCall call none).accepted = o.node.accepted from rfl, List.drop_length]
            at hv
          cases hv
        · obtain rfl := Option.some.inj h
          rw [List.drop_left] at hv
          obtain rfl := List.mem_singleton.mp hv
          exact .inr ⟨call, hcall, rfl⟩
      · cases h
  | _ => exact .inl hp

theorem requestsRefused_step (hdevices : DevicesKept o) (hinv : RequestsRefused o)
    (h : nodeStep lib cfg o.node e = some t) : RequestsRefused (o.record e t) := by
  refine ⟨fun call deviceId hmem => ?_, fun call stage session device hcall hrows => ?_,
    fun p hp => ?_⟩
  · rcases mem_revokedBefore_record hmem with ⟨envelope, rfl, hrevoked⟩ | hmem
    · exact hrevoked
    · exact mem_revoked_record.mpr (.inr (hinv.before call deviceId hmem))
  · rw [node_record] at hcall
    intro hmem
    rcases step_entered h hcall with hbefore | hentered
    · exact hinv.found call stage session device hbefore hrows
        (revokedBefore_record h (by rw [hbefore]; exact Option.some_ne_none _) hmem)
    · cases stage with
      | found request checkedAt session' device' =>
        obtain ⟨rfl, hbefore, hcheck⟩ := hentered
        obtain ⟨rfl, rfl⟩ := Prod.mk.inj (Option.some.inj hrows)
        have hbefore' := revokedBefore_record h (by rw [hbefore]; exact Option.some_ne_none _) hmem
        obtain ⟨-, -, hdevice, howner⟩ := sessionCheck_eq_ok hcheck
        exact hdevices.inactive _ hdevice (howner ▸ hinv.before call _ hbefore')
          (active_of_sessionCheck hcheck)
      | live v =>
        obtain ⟨rfl, hbefore⟩ := hentered
        exact hinv.found call _ session device hbefore hrows
          (revokedBefore_record h (by rw [hbefore]; exact Option.some_ne_none _) hmem)
      | fresh v =>
        obtain ⟨rfl, hbefore⟩ := hentered
        exact hinv.found call _ session device hbefore hrows
          (revokedBefore_record h (by rw [hbefore]; exact Option.some_ne_none _) hmem)
      | enrolling | challenging | opening | timely => cases hrows
  · rcases mem_served_record h hp with hp | ⟨call, hcall, hbefore⟩
    · exact hinv.refused p hp
    · rw [hbefore]
      exact hinv.found call _ _ _ hcall rfl

/-! ## Challenges -/

/-- The row of a challenge comes from the row before, and stays used; or it is drawn. -/
def Drawn (s : NodeState) (e : NodeEvent) (c : ChallengeRow) : Prop :=
  (∃ before ∈ s.db.challenges, before.challenge = c.challenge ∧
    (before.used = true → c.used = true)) ∨ ∃ call, e = .challengeWrite call c.challenge

/-- **What a statement does to the challenges.** -/
theorem step_challenges {s : NodeState} (h : nodeStep lib cfg s e = some t) {c : ChallengeRow}
    (hc : c ∈ t.db.challenges) : Drawn s e c := by
  have hsub : t.db.challenges ⊆ s.db.challenges → Drawn s e c :=
    fun hsub => .inl ⟨c, hsub hc, rfl, id⟩
  have hsame : t.db.challenges = s.db.challenges → Drawn s e c :=
    fun hsame => hsub (by rw [hsame]; exact fun _ => id)
  cases e with
  | tick =>
    simp only [nodeStep] at h
    split at h
    · obtain rfl := Option.some.inj h
      exact hsame rfl
    · cases h
  | prune =>
    simp only [nodeStep] at h
    split at h
    · obtain rfl := Option.some.inj h
      exact hsub (List.filter_subset_self _)
    · cases h
  | sign | failed | revoke =>
    obtain rfl := Option.some.inj h
    exact hsame rfl
  | enrollCheck | challengeCheck | openCheck | requestStart =>
    obtain rfl := start_eq_some h
    exact hsame rfl
  | enrollWrite call =>
    simp only [nodeStep] at h
    split at h
    · obtain rfl := Option.some.inj h
      refine hsame ?_
      unfold NodeState.write IdentityDb.enrollWrite
      split
      · rfl
      · rfl
    · cases h
  | challengeWrite call value =>
    simp only [nodeStep] at h
    split at h
    next deviceId hcall =>
      obtain rfl := Option.some.inj h
      cases hwrite : s.db.challengeWrite deviceId value s.clock.isoformat with
      | error error =>
        rw [hwrite] at hc
        exact .inl ⟨c, hc, rfl, id⟩
      | ok db =>
        rw [hwrite] at hc
        unfold IdentityDb.challengeWrite at hwrite
        obtain ⟨_, -, hwrite⟩ := bind_eq_ok.mp hwrite
        obtain rfl := Except.ok.inj hwrite
        rcases List.mem_append.mp hc with hc | hc
        · exact .inl ⟨c, hc, rfl, id⟩
        · obtain rfl := List.mem_singleton.mp hc
          exact .inr ⟨call, rfl⟩
    · cases h
  -- a session that is opened marks its challenge, and no row loses the mark
  | openWrite =>
    simp only [nodeStep] at h
    split at h
    · split at h
      · obtain rfl := Option.some.inj h
        obtain ⟨before, hbefore, rfl⟩ := List.mem_map.mp hc
        refine .inl ⟨before, hbefore, ?_⟩
        split
        · exact ⟨rfl, fun _ => rfl⟩
        · exact ⟨rfl, id⟩
      · cases h
    · cases h
  | requestSession | requestExpiry | requestReplay =>
    simp only [nodeStep] at h
    split at h
    · obtain rfl := Option.some.inj h
      exact hsame rfl
    · cases h
  | requestInsert =>
    simp only [nodeStep] at h
    split at h
    · split at h
      · obtain rfl := Option.some.inj h
        exact hsame rfl
      next db hdb =>
        obtain rfl := Option.some.inj h
        unfold IdentityDb.replayInsert at hdb
        obtain ⟨_, -, hdb⟩ := bind_eq_ok.mp hdb
        obtain rfl := Except.ok.inj hdb
        exact hsame rfl
    · cases h

/-- A session that is opened marks its challenge. -/
theorem used_openWrite {s : NodeState} {sessionId : Str} {expiresAt : UtcTime}
    (h : nodeStep lib cfg s (.openWrite call sessionId expiresAt) = some t)
    (hcall : s.calls call = some (.opening deviceId challenge)) {c : ChallengeRow}
    (hc : c ∈ t.db.challenges) (hid : c.challenge = challenge) : c.used = true := by
  simp only [nodeStep, hcall] at h
  split at h
  · obtain rfl := Option.some.inj h
    obtain ⟨before, -, rfl⟩ := List.mem_map.mp hc
    by_cases hbefore : before.challenge = challenge
    · rw [if_pos hbefore]
    · rw [if_neg hbefore] at hid
      exact absurd hid hbefore
  · cases h

theorem consumed_record : (o.record e t).consumed = o.consumed ∨ ∃ call sessionId expiresAt,
    e = .openWrite call sessionId expiresAt ∧ (o.record e t).consumed = o.opens call ++
    o.consumed := by
  cases e with
  | openWrite call sessionId expiresAt => exact .inr ⟨call, sessionId, expiresAt, rfl, rfl⟩
  | _ => exact .inl rfl

theorem mem_opens (h : challenge ∈ o.opens call) :
    ∃ deviceId, o.node.calls call = some (.opening deviceId challenge) := by
  unfold Observed.opens at h
  split at h
  next deviceId challenge' hcall =>
    obtain rfl := List.mem_singleton.mp h
    exact ⟨deviceId, hcall⟩
  · cases h

theorem mem_consumed_record (h : challenge ∈ (o.record e t).consumed) :
    challenge ∈ o.consumed ∨ ∃ call sessionId expiresAt deviceId,
    e = .openWrite call sessionId expiresAt ∧
      o.node.calls call = some (.opening deviceId challenge) := by
  rcases consumed_record (o := o) (e := e) (t := t) with heq | ⟨call, sessionId, expiresAt, he, heq⟩
  · exact .inl (heq ▸ h)
  · rw [heq] at h
    rcases List.mem_append.mp h with h | h
    · obtain ⟨deviceId, hcall⟩ := mem_opens h
      exact .inr ⟨call, sessionId, expiresAt, deviceId, he, hcall⟩
    · exact .inl h

theorem issued_record :
    challenge ∈ (o.record e t).issued ↔ (∃ call, e = .challengeWrite call challenge) ∨
    challenge ∈ o.issued := by
  cases e with
  | challengeWrite call value => simp [Observed.record, eq_comm]
  | _ => simp [Observed.record]

theorem consumedSince_record (h : nodeStep lib cfg o.node e = some t)
    (hcall : o.node.calls call ≠ none) (hmem : challenge ∈ (o.record e t).consumed)
    (hsince : challenge ∈ o.consumed → challenge ∈ o.consumedSince call) :
    challenge ∈ (o.record e t).consumedSince call := by
  cases e with
  | openWrite moved =>
    rcases List.mem_append.mp hmem with hmem | hmem
    · exact List.mem_append_left _ hmem
    · exact List.mem_append_right _ (hsince hmem)
  | openCheck moved =>
    have hne : call ≠ moved := by
      rintro rfl
      exact hcall (start_none h)
    simp only [Observed.record, Function.update_of_ne hne]
    exact hsince hmem
  | _ => exact hsince hmem

/-- A challenge that has opened a session is marked or gone, and a call that still holds it has been
overtaken. -/
structure ChallengesKept (o : Observed) : Prop where
  used : ∀ c ∈ o.node.db.challenges, c.challenge ∈ o.consumed → c.used = true
  stored : ∀ c ∈ o.node.db.challenges, c.challenge ∈ o.issued
  held : ∀ call deviceId challenge, o.node.calls call = some (.opening deviceId challenge) →
    challenge ∈ o.issued ∧ (challenge ∈ o.consumed → challenge ∈ o.consumedSince call)
  issued : ∀ challenge ∈ o.consumed, challenge ∈ o.issued
  once : o.consumed.Nodup

theorem unused_of_openCheck {now : UtcTime} {signature : Str}
    (h : db.openCheck lib cfg now deviceId challenge signature = .ok ()) :
    ∃ c ∈ db.challenges, c.challenge = challenge ∧ c.used = false := by
  unfold IdentityDb.openCheck at h
  split at h
  next c d hc hd =>
    obtain ⟨_, -, h⟩ := bind_eq_ok.mp h
    obtain ⟨_, hused, -⟩ := bind_eq_ok.mp h
    have hfound := List.find?_some hc
    simp only [decide_eq_true_eq] at hfound
    exact ⟨c, List.mem_of_find?_eq_some hc, hfound.1, by simpa using raiseIf_eq_ok.mp hused⟩
  · cases h

theorem challengesKept_step (hinv : ChallengesKept o) (hdrawn : DrawnOnce o e)
    (hovertaken : NotOvertaken o e)
    (h : nodeStep lib cfg o.node e = some t) : ChallengesKept (o.record e t) := by
  constructor
  · rw [node_record]
    intro c hc hmem
    rcases mem_consumed_record hmem with hold | ⟨call, sessionId, expiresAt, deviceId, rfl, hcall⟩
    · rcases step_challenges h hc with ⟨before, hbefore, hid, hused⟩ | ⟨call, rfl⟩
      · exact hused (hinv.used before hbefore (hid ▸ hold))
      · exact absurd (hinv.issued _ hold) hdrawn
    · exact used_openWrite h hcall hc rfl
  · rw [node_record]
    intro c hc
    rw [issued_record]
    rcases step_challenges h hc with ⟨before, hbefore, hid, -⟩ | ⟨call, rfl⟩
    · exact .inr (hid ▸ hinv.stored before hbefore)
    · exact .inl ⟨call, rfl⟩
  · rw [node_record]
    intro call deviceId challenge hcall
    rw [issued_record]
    rcases step_entered h hcall with hbefore | ⟨signature, rfl, hcheck⟩
    · obtain ⟨hissued, hsince⟩ := hinv.held call deviceId challenge hbefore
      refine ⟨.inr hissued, fun hmem => consumedSince_record h ?_ hmem hsince⟩
      rw [hbefore]
      exact Option.some_ne_none _
    · obtain ⟨c, hc, rfl, hunused⟩ := unused_of_openCheck hcheck
      refine ⟨.inr (hinv.stored c hc), fun hmem => ?_⟩
      -- a challenge that was consumed would not have passed the check
      have hused := hinv.used c hc hmem
      rw [hunused] at hused
      cases hused
  · intro challenge hmem
    rw [issued_record]
    rcases mem_consumed_record hmem with hold | ⟨call, sessionId, expiresAt, deviceId, -, hcall⟩
    · exact .inr (hinv.issued challenge hold)
    · exact .inr (hinv.held call deviceId challenge hcall).1
  · rcases consumed_record (o := o) (e := e) (t := t) with heq
      | ⟨call, sessionId, expiresAt, rfl, heq⟩
    · rw [heq]
      exact hinv.once
    · rw [heq, List.nodup_append]
      refine ⟨?_, hinv.once, fun challenge hopens other hother => ?_⟩
      · unfold Observed.opens
        split
        · exact List.nodup_singleton _
        · exact List.nodup_nil
      · rintro rfl
        obtain ⟨deviceId, hcall⟩ := mem_opens hopens
        exact hovertaken challenge hopens ((hinv.held call deviceId challenge hcall).2 hother)

/-! ## Runs -/

/-- What holds in every state of a run. -/
structure FinalInv (o : Observed) : Prop where
  devices : DevicesKept o
  requests : RequestsRefused o
  challenges : ChallengesKept o

theorem finalInv_init (clock : UtcTime) : FinalInv (.init clock) where
  devices := ⟨fun d hd => (List.not_mem_nil hd).elim, fun _ _ _ _ h => by cases h⟩
  requests := ⟨fun _ _ h => (List.not_mem_nil h).elim, fun _ _ _ _ h => (by cases h),
    fun _ h => (List.not_mem_nil h).elim⟩
  challenges := ⟨fun _ h => (List.not_mem_nil h).elim, fun _ h => (List.not_mem_nil h).elim,
    fun _ _ _ h => (by cases h), fun _ h => (List.not_mem_nil h).elim, List.nodup_nil⟩

theorem finalInv_step {o' : Observed} (hinv : FinalInv o) (hdrawn : DrawnOnce o e)
    (hovertaken : NotOvertaken o e) (h : observedStep lib cfg o e = some o') : FinalInv o' := by
  obtain ⟨t, ht, rfl⟩ := Option.map_eq_some_iff.mp h
  exact ⟨devicesKept_step hinv.devices hovertaken ht,
    requestsRefused_step hinv.devices hinv.requests ht,
    challengesKept_step hinv.challenges hdrawn hovertaken ht⟩

/-- **Revocation and challenges are final** in every run in which challenges are drawn once and no
write is overtaken. -/
theorem run_final {clock : UtcTime} {es : List NodeEvent} {o : Observed}
    (hquality : Along (observedStep lib cfg) (fun o e => DrawnOnce o e ∧ NotOvertaken o e)
      (.init clock) es)
    (h : run (observedStep lib cfg) (.init clock) es = some o) : Final o := by
  have hinv : FinalInv o := run_invariant_along
    (fun _ _ _ _ hinv hq hstep => finalInv_step hinv hq.1 hq.2 hstep) (finalInv_init clock)
    hquality h
  exact ⟨hinv.devices.inactive, hinv.requests.refused, hinv.challenges.once⟩

/-! ### Two runs -/

/-- The phone is enrolled again while it is revoked. -/
def phoneRevived : List NodeEvent :=
  [.enrollCheck 0 (lit "phone") phoneKey (lit "pair") (lit "secure-element"), .enrollWrite 0,
    .enrollCheck 1 (lit "phone") phoneKey (lit "pair") (lit "secure-element"),
    .revoke (lit "phone"), .enrollWrite 1]

/-- **An enrolment that has read the row before the revocation makes the device active again.** -/
theorem not_final : ¬ ∀ (lib : NodeLib) (cfg : IdentitySettings) (clock : UtcTime)
    (es : List NodeEvent) (o : Observed), Along (observedStep lib cfg) DrawnOnce (.init clock) es →
      run (observedStep lib cfg) (.init clock) es = some o → Final o := by
  intro hall
  have hrun : (run (observedStep phoneLib phoneSettings) (.init noon) phoneRevived).map
      (fun o => (o.node.db.devices.map fun d => (d.deviceId, d.status), o.revoked))
      = some ([(lit "phone", .active)], [lit "phone"]) := by
    decide +kernel
  obtain ⟨o, ho, hseen⟩ := Option.map_eq_some_iff.mp hrun
  obtain ⟨hdevices, hrevoked⟩ := Prod.mk.inj hseen
  have hdrawn : Along (observedStep phoneLib phoneSettings) DrawnOnce
      (.init noon) phoneRevived := by
    refine along_of_mem fun e he o => ?_
    simp only [phoneRevived, List.mem_cons, List.not_mem_nil, or_false] at he
    rcases he with rfl | rfl | rfl | rfl | rfl
    all_goals trivial
  obtain ⟨d, hd, hid⟩ :=
    List.mem_map.mp (hdevices ▸ List.mem_singleton_self (lit "phone", DeviceStatus.active))
  obtain ⟨hid, hstatus⟩ := Prod.mk.inj hid
  refine (hall phoneLib phoneSettings noon _ o hdrawn ho).inactive d hd ?_ hstatus
  rw [hrevoked, hid]
  exact List.mem_singleton_self _

/-- The phone is enrolled, opens a session, and is revoked. -/
theorem run_final_phone : ∃ o, run (observedStep phoneLib phoneSettings) (.init noon)
    (phoneOpens ++ [.revoke (lit "phone")]) = some o ∧ o.consumed = [lit "c1"] ∧
    o.revoked = [lit "phone"] ∧ Final o := by
  have hrun :
    (run (observedStep phoneLib phoneSettings) (.init noon)
      (phoneOpens ++ [.revoke (lit "phone")])).map
      (fun o => (o.consumed, o.revoked)) = some ([lit "c1"], [lit "phone"]) := by
    decide +kernel
  obtain ⟨o, ho, hseen⟩ := Option.map_eq_some_iff.mp hrun
  obtain ⟨hconsumed, hrevoked⟩ := Prod.mk.inj hseen
  have hquality : Along (observedStep phoneLib phoneSettings)
    (fun o e => DrawnOnce o e ∧ NotOvertaken o e)
      (.init noon) (phoneOpens ++ [.revoke (lit "phone")]) := by
    decide +kernel
  exact ⟨o, ho, hconsumed, hrevoked, run_final hquality ho⟩

end

end Node
