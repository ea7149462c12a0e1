import Msb.Infra.Float
import Msb.Infra.Run
import Msb.Infra.Text

/-!
# The storage contract

`storage_contract.py`: who may write to the audit store. The state is kept in a control file. A
latch (`AUDIT_WRITE_BLOCKED`, `SAFE_MODE`) refuses every write until the operator clears it, and
the clear opens a window in which the free-space probe is not asked.

`assert_write_allowed` asks the probe once the window is over, and `health` reports what the file
says. So the report is right exactly where the probe has nothing to add (`ProbeAgrees`).

* `run_latched` — a latch refuses every write until the next clear
* `run_afterClear` — the window of a clear, and what comes after it
* `admission_law` — both, and when `health` reports what a check would do
-/

namespace Ledger

open Py Machine

/-! ## The contract -/

inductive StorageState where
  | normal
  | lowSpace
  | criticalSpace
  | auditWriteBlocked
  | safeMode
  deriving DecidableEq

def StorageState.text : StorageState → Str
  | .normal => lit "NORMAL"
  | .lowSpace => lit "LOW_SPACE"
  | .criticalSpace => lit "CRITICAL_SPACE"
  | .auditWriteBlocked => lit "AUDIT_WRITE_BLOCKED"
  | .safeMode => lit "SAFE_MODE"

/-- `state in (AUDIT_WRITE_BLOCKED, SAFE_MODE)` -/
def StorageState.latched (s : StorageState) : Bool := s = .auditWriteBlocked ∨ s = .safeMode

structure StorageProbe where
  freeBytes : Int
  totalBytes : Int
  deriving DecidableEq

def overflowError : PyError :=
  .raised (lit "OverflowError") (lit "integer division result too large for a float")

def StorageProbe.freeRatio (probe : StorageProbe) : Except PyError Finite64 :=
  if probe.totalBytes ≤ 0 then .ok Finite64.zero
  else
    match trueDiv probe.freeBytes probe.totalBytes with
    | .finite x => .ok x
    | _ => .error overflowError

/-- A point in time, in microseconds since the epoch. -/
abbrev Instant := Int

/-- `datetime.max`, the last point in time there is. -/
def maxInstant : Instant := 253402300800 * 10 ^ 6 - 1

/-- `override_expires_at` as the control file has it. -/
inductive ExpiryText where
  | iso (t : Instant)
  | malformed
  deriving DecidableEq

/-- `_parse_iso` -/
def parseIso : Option ExpiryText → Option Instant
  | some (.iso t) => some t
  | _ => none

/-- `_override_active` -/
def overrideActive (expiresAt : Option ExpiryText) (now : Instant) : Bool :=
  match parseIso expiresAt with
  | some parsed => now < parsed
  | none => false

/-- `_state_from_ratio` -/
def stateFromRatio (ratio low critical blocked : Finite64) : StorageState :=
  if ratio.value < blocked.value then .auditWriteBlocked
  else if ratio.value < critical.value then .criticalSpace
  else if ratio.value < low.value then .lowSpace
  else .normal

/-- `StorageContract`, with what its constructor checks. -/
structure StorageContract where
  lowRatio : Finite64
  criticalRatio : Finite64
  blockedRatio : Finite64
  overrideTtlS : Int
  enabled : Bool
  blocked_nonneg : 0 ≤ blockedRatio.value
  blocked_lt : blockedRatio.value < criticalRatio.value
  critical_lt : criticalRatio.value < lowRatio.value
  low_le : lowRatio.value ≤ 1
  ttl_pos : 0 < overrideTtlS

/-- The control file. What makes it unreadable is in the text of the error. -/
inductive ControlFile where
  | absent
  | unreadable (exc : Str)
  | control (state : StorageState) (overrideExpiresAt : Option ExpiryText)
  deriving DecidableEq

/-- What a call meets: the control file, the clock and what the probe reads. -/
structure StorageEnv where
  file : ControlFile
  now : Instant
  probe : StorageProbe

def auditWriteBlocked (message : Str) : PyError := .raised (lit "AuditWriteBlocked") message

/-- `_read_state` -/
def readState : ControlFile → Except PyError (StorageState × Option ExpiryText)
  | .absent => .ok (.normal, none)
  | .unreadable exc =>
    .error (auditWriteBlocked (lit "storage state file is unreadable: " ++ exc))
  | .control state overrideExpiresAt => .ok (state, overrideExpiresAt)

/-- `_write_state`, of which only the state and the expiry are read again. -/
def writeState (state : StorageState) (overrideExpiresAt : Option Instant) : ControlFile :=
  .control state (overrideExpiresAt.map .iso)

namespace StorageContract

variable (c : StorageContract)

/-- `_derived_state` -/
def derivedState (probe : StorageProbe) : Except PyError StorageState :=
  probe.freeRatio.map fun ratio =>
    stateFromRatio ratio c.lowRatio c.criticalRatio c.blockedRatio

/-- `state`, and the control file after it. -/
def state (refresh : Bool) (s : StorageEnv) : Except PyError StorageState × ControlFile :=
  if !c.enabled then (.ok .normal, s.file)
  else
    match readState s.file with
    | .error e => (.error e, s.file)
    | .ok (current, overrideExpiresAt) =>
      if current.latched then (.ok current, s.file)
      else if overrideActive overrideExpiresAt s.now then (.ok .normal, s.file)
      else if refresh then
        match c.derivedState s.probe with
        | .error e => (.error e, s.file)
        | .ok derived =>
          if derived ≠ current then (.ok derived, writeState derived none)
          else (.ok current, s.file)
      else (.ok current, s.file)

def assertWriteAllowed (s : StorageEnv) : Except PyError Unit × ControlFile :=
  if !c.enabled then (.ok (), s.file)
  else
    match c.state true s with
    | (.error e, file) => (.error e, file)
    | (.ok current, file) =>
      if current.latched then
        (.error (auditWriteBlocked (lit "audit writes are blocked in " ++ current.text)), file)
      else (.ok (), file)

def markBlocked : ControlFile := writeState .auditWriteBlocked none

def markSafeMode : ControlFile := writeState .safeMode none

def clearBlock (ttlS : Option Int) (s : StorageEnv) : Except PyError Instant × ControlFile :=
  let ttl := ttlS.getD c.overrideTtlS
  if ttl ≤ 0 then (.error (.valueError (lit "override ttl must be positive")), s.file)
  else
    let expiresAt := s.now + ttl * 10 ^ 6
    if maxInstant < expiresAt then
      (.error (.raised (lit "OverflowError") (lit "date value out of range")), s.file)
    else (.ok expiresAt, writeState .normal (some expiresAt))

end StorageContract

/-- What `health` returns. -/
structure StorageHealth where
  enabled : Bool
  state : StorageState
  derivedState : StorageState
  overrideActive : Bool
  overrideExpiresAt : Option ExpiryText
  overrideTtlS : Int
  freeBytes : Int
  totalBytes : Int
  freeRatio : PyFloat
  lowRatio : Finite64
  criticalRatio : Finite64
  blockedRatio : Finite64
  writeAllowed : Bool

/-- The state that `health` reports. It asks no probe. -/
def StorageContract.effective (c : StorageContract) (persisted : StorageState) (override : Bool) :
    StorageState :=
  if !c.enabled then .normal
  else if persisted.latched then persisted
  else if override then .normal
  else persisted

def StorageContract.health (c : StorageContract) (s : StorageEnv) :
    Except PyError StorageHealth := do
  let ratio ← s.probe.freeRatio
  let derived ← c.derivedState s.probe
  let (persisted, overrideExpiresAt) ← readState s.file
  let override := overrideActive overrideExpiresAt s.now
  let effective := c.effective persisted override
  .ok {
    enabled := c.enabled
    state := effective
    derivedState := derived
    overrideActive := override
    overrideExpiresAt := overrideExpiresAt
    overrideTtlS := c.overrideTtlS
    freeBytes := s.probe.freeBytes
    totalBytes := s.probe.totalBytes
    freeRatio := roundTo ratio 6
    lowRatio := c.lowRatio
    criticalRatio := c.criticalRatio
    blockedRatio := c.blockedRatio
    writeAllowed := !effective.latched }

/-! ## Runs -/

inductive StorageEvent where
  | reading (probe : StorageProbe)
  | advance (d : Nat)
  | markBlocked
  | markSafeMode
  | clearBlock (ttlS : Option Int)
  | state (refresh : Bool)
  | assertWriteAllowed
  deriving DecidableEq

def StorageEvent.isClear : StorageEvent → Bool
  | .clearBlock _ => true
  | _ => false

/-- The event latches: a write has failed, or the operator has chosen safe mode. -/
def StorageEvent.isMark : StorageEvent → Bool
  | .markBlocked => true
  | .markSafeMode => true
  | _ => false

/-- One call, or one move of the clock or of the probe. -/
def storageStep (c : StorageContract) (s : StorageEnv) : StorageEvent → Option StorageEnv
  | .reading probe => some { s with probe := probe }
  | .advance d => some { s with now := s.now + d }
  | .markBlocked => some { s with file := StorageContract.markBlocked }
  | .markSafeMode => some { s with file := StorageContract.markSafeMode }
  | .clearBlock ttlS => some { s with file := (c.clearBlock ttlS s).2 }
  | .state refresh => some { s with file := (c.state refresh s).2 }
  | .assertWriteAllowed => some { s with file := (c.assertWriteAllowed s).2 }

/-- A latch is persisted. -/
def ControlFile.Latched (f : ControlFile) : Prop :=
  ∃ state expiry, f = .control state expiry ∧ state.latched = true

namespace StorageContract

variable {c : StorageContract} {s t : StorageEnv}

/-- A check would not raise now. -/
def Admits (c : StorageContract) (s : StorageEnv) : Prop := (c.assertWriteAllowed s).1 = .ok ()

/-- `health()["write_allowed"]` is `True` now. -/
def HealthAllows (c : StorageContract) (s : StorageEnv) : Prop :=
  ∃ h, c.health s = .ok h ∧ h.writeAllowed = true

/-- The probe reads below the blocked ratio. -/
def Full (c : StorageContract) (probe : StorageProbe) : Prop :=
  c.derivedState probe = .ok .auditWriteBlocked

/-! ## One call -/

theorem assertWriteAllowed_file : (c.assertWriteAllowed s).2 = (c.state true s).2 := by
  unfold assertWriteAllowed
  by_cases hc : c.enabled
  · rw [hc]
    simp only [Bool.not_true, Bool.false_eq_true, if_false]
    rcases c.state true s with ⟨e | current, file⟩
    · rfl
    · by_cases hl : current.latched = true <;> simp [hl]
  · simp [hc, state]

/-- What `state` does to the control file: nothing, or it writes what the probe says, and then only
where nothing is latched and no window is open. -/
theorem state_file (refresh : Bool) : (c.state refresh s).2 = s.file ∨
    ∃ current expiry derived, readState s.file = .ok (current, expiry) ∧ current.latched = false ∧
      overrideActive expiry s.now = false ∧ (c.state refresh s).2 = writeState derived none := by
  unfold state
  by_cases hc : c.enabled
  swap
  · simp [hc]
  rw [hc]
  rcases hread : readState s.file with e | ⟨current, expiry⟩
  · exact Or.inl rfl
  by_cases hl : current.latched = true
  · exact Or.inl (by simp [hl])
  by_cases ho : overrideActive expiry s.now = true
  · exact Or.inl (by simp [hl, ho])
  cases refresh with
  | false => exact Or.inl (by simp [hl, ho])
  | true =>
    rcases hd : c.derivedState s.probe with e | derived
    · exact Or.inl (by simp [hl, ho])
    by_cases hne : derived = current
    · exact Or.inl (by simp [hl, ho, hne])
    · refine Or.inr ⟨current, expiry, derived, rfl, by simpa using hl, by simpa using ho, ?_⟩
      simp [hl, ho, hne]

/-- A check admits a write where nothing is latched, and the window is open or the probe does not
read below the blocked ratio. -/
theorem admits_iff (hc : c.enabled = true) : c.Admits s ↔
    ∃ current expiry, readState s.file = .ok (current, expiry) ∧ current.latched = false ∧
      (overrideActive expiry s.now = true ∨
        ∃ derived, c.derivedState s.probe = .ok derived ∧ derived.latched = false) := by
  unfold Admits assertWriteAllowed state
  rw [hc]
  rcases hread : readState s.file with e | ⟨current, expiry⟩
  · simp
  by_cases hl : current.latched = true
  · simp [hl]
  by_cases ho : overrideActive expiry s.now = true
  · simp [hl, ho, show StorageState.normal.latched = false from rfl]
  rcases hd : c.derivedState s.probe with e | derived
  · simp [hl, ho]
  by_cases hne : derived = current
  · simp [hl, ho, hne]
  · by_cases hdl : derived.latched = true <;> simp [hl, ho, hne, hdl]

/-- The probe alone never selects safe mode. -/
theorem derivedState_latched {derived : StorageState} (h : c.derivedState s.probe = .ok derived) :
    derived.latched = true ↔ derived = .auditWriteBlocked := by
  obtain ⟨ratio, -, rfl⟩ := map_eq_ok.mp h
  unfold stateFromRatio
  split_ifs <;> simp [StorageState.latched]

theorem not_admits_of_latched (hc : c.enabled = true) (h : s.file.Latched) : ¬ c.Admits s := by
  obtain ⟨state, expiry, hf, hl⟩ := h
  rw [admits_iff hc, hf]
  rintro ⟨current, expiry', hread, hl', -⟩
  obtain ⟨rfl, rfl⟩ := Prod.mk.inj (Except.ok.inj hread)
  rw [hl] at hl'
  exact absurd hl' (by simp)

/-- A check that hears the probe below the blocked ratio raises and latches. -/
theorem latches_of_full (hc : c.enabled = true) {state : StorageState} {expiry : Option ExpiryText}
    (hf : s.file = .control state expiry) (ho : overrideActive expiry s.now = false)
    (hfull : c.Full s.probe) : ¬ c.Admits s ∧ (c.assertWriteAllowed s).2.Latched := by
  have hread : readState s.file = .ok (state, expiry) := by rw [hf]; rfl
  constructor
  · rw [admits_iff hc, hread, hfull]
    rintro ⟨current, expiry', hcur, hl, ho' | ⟨derived, hd, hdl⟩⟩
    · obtain ⟨-, rfl⟩ := Prod.mk.inj (Except.ok.inj hcur)
      rw [ho] at ho'
      exact absurd ho' (by simp)
    · obtain rfl := Except.ok.inj hd
      exact absurd hdl (by simp [StorageState.latched])
  · rw [assertWriteAllowed_file]
    unfold StorageContract.state
    rw [hc, hread, show c.derivedState s.probe = .ok .auditWriteBlocked from hfull]
    by_cases hl : state.latched = true
    · exact ⟨state, expiry, by simp [hl, hf], hl⟩
    · have hne : StorageState.auditWriteBlocked ≠ state := by
        rintro rfl
        exact hl (by simp [StorageState.latched])
      exact ⟨.auditWriteBlocked, none, by simp [hl, hne, ho, writeState],
        by simp [StorageState.latched]⟩

/-! ## Runs of calls -/

/-- Only a clear takes a latch back. -/
theorem step_latched {e : StorageEvent} (he : e.isClear = false) (h : s.file.Latched)
    (ht : storageStep c s e = some t) : t.file.Latched := by
  have hstate : ∀ refresh, (c.state refresh s).2.Latched := by
    intro refresh
    rcases c.state_file (s := s) refresh with heq | ⟨current, expiry, derived, hread, hl, -, -⟩
    · rw [heq]
      exact h
    · obtain ⟨state, expiry', hf, hl'⟩ := h
      rw [hf] at hread
      obtain ⟨rfl, -⟩ := Prod.mk.inj (Except.ok.inj hread)
      rw [hl] at hl'
      exact absurd hl' (by simp)
  cases e with
  | clearBlock ttlS => exact absurd he (by simp [StorageEvent.isClear])
  | reading probe =>
    obtain rfl := Option.some.inj ht
    exact h
  | advance d =>
    obtain rfl := Option.some.inj ht
    exact h
  | markBlocked =>
    obtain rfl := Option.some.inj ht
    exact ⟨.auditWriteBlocked, none, rfl, rfl⟩
  | markSafeMode =>
    obtain rfl := Option.some.inj ht
    exact ⟨.safeMode, none, rfl, rfl⟩
  | state refresh =>
    obtain rfl := Option.some.inj ht
    exact hstate refresh
  | assertWriteAllowed =>
    obtain rfl := Option.some.inj ht
    rw [assertWriteAllowed_file]
    exact hstate true

variable {es : List StorageEvent} {expires : Instant}

theorem run_latched (hes : ∀ e ∈ es, e.isClear = false) (h : s.file.Latched)
    (ht : run (storageStep c) s es = some t) : t.file.Latched :=
  run_invariant_mem (I := fun u => u.file.Latched)
    (fun e he _ _ hu huv => step_latched (hes e he) hu huv) h ht

/-- After a clear that nothing has latched over: its window is open, or it has lapsed. -/
def AfterClear (expires : Instant) (s : StorageEnv) : Prop :=
  s.file = writeState .normal (some expires) ∨
    expires ≤ s.now ∧ ∃ state, s.file = writeState state none

theorem overrideActive_iso {now : Instant} :
    overrideActive (some (.iso expires)) now = true ↔ now < expires := by
  simp [overrideActive, parseIso]

theorem step_afterClear {e : StorageEvent} (hclear : e.isClear = false) (hmark : e.isMark = false)
    (h : AfterClear expires s) (ht : storageStep c s e = some t) :
    AfterClear expires t := by
  have hstate : ∀ refresh, AfterClear expires { s with file := (c.state refresh s).2 } := by
    intro refresh
    rcases c.state_file (s := s) refresh with heq | ⟨current, expiry, derived, hread, -, ho, hw⟩
    · rcases h with hf | ⟨hle, state, hf⟩
      · exact Or.inl (by simpa [heq] using hf)
      · exact Or.inr ⟨hle, state, by simpa [heq] using hf⟩
    · refine Or.inr ⟨?_, derived, hw⟩
      -- the probe was asked, so the window of a file that has one is over
      rcases h with hf | ⟨hle, -, -⟩
      · rw [hf] at hread
        obtain ⟨-, rfl⟩ := Prod.mk.inj (Except.ok.inj hread)
        by_contra hlt
        have hactive := overrideActive_iso.mpr (Int.not_le.mp hlt)
        rw [show (some expires).map ExpiryText.iso = some (.iso expires) from rfl, hactive] at ho
        exact absurd ho (by simp)
      · exact hle
  cases e with
  | clearBlock ttlS => exact absurd hclear (by simp [StorageEvent.isClear])
  | markBlocked => exact absurd hmark (by simp [StorageEvent.isMark])
  | markSafeMode => exact absurd hmark (by simp [StorageEvent.isMark])
  | reading probe =>
    obtain rfl := Option.some.inj ht
    exact h
  | advance d =>
    obtain rfl := Option.some.inj ht
    rcases h with hf | ⟨hle, hf⟩
    · exact Or.inl hf
    · refine Or.inr ⟨?_, hf⟩
      exact Int.le_trans hle (Int.le_add_of_nonneg_right (Int.natCast_nonneg d))
  | state refresh =>
    obtain rfl := Option.some.inj ht
    exact hstate refresh
  | assertWriteAllowed =>
    obtain rfl := Option.some.inj ht
    rw [assertWriteAllowed_file]
    exact hstate true

theorem run_afterClear (hes : ∀ e ∈ es, e.isClear = false ∧ e.isMark = false)
    (h : AfterClear expires s) (ht : run (storageStep c) s es = some t) : AfterClear expires t :=
  run_invariant_mem (I := AfterClear expires)
    (fun e he _ _ hu huv => step_afterClear (hes e he).1 (hes e he).2 hu huv) h ht

/-! ## The report -/

/-- What the control file says and what a check would do are the same: the file settles it (it is
unreadable, or it holds a latch), or a window is open and the probe has a ratio, or the probe does
not read below the blocked ratio. -/
def ProbeAgrees (c : StorageContract) (s : StorageEnv) : Prop :=
  match readState s.file with
  | .error _ => True
  | .ok (persisted, expiry) =>
    persisted.latched = true ∨
      if overrideActive expiry s.now then ∃ ratio, s.probe.freeRatio = .ok ratio
      else ¬ c.Full s.probe

theorem healthAllows_iff (hc : c.enabled = true) : c.HealthAllows s ↔
    ∃ persisted expiry, readState s.file = .ok (persisted, expiry) ∧ persisted.latched = false ∧
      ∃ ratio, s.probe.freeRatio = .ok ratio := by
  unfold HealthAllows health derivedState effective
  rw [hc]
  rcases hr : s.probe.freeRatio with e | ratio
  · simp [bind, Except.bind]
  rcases hread : readState s.file with e | ⟨persisted, expiry⟩
  · simp [bind, Except.bind, Except.map]
  by_cases hl : persisted.latched = true
  · simp [bind, Except.bind, Except.map, hl]
  · by_cases ho : overrideActive expiry s.now = true <;>
      simp [bind, Except.bind, Except.map, hl, ho, show StorageState.normal.latched =
        false from rfl]

/-- `health` reports what a check would do exactly where the probe has nothing to add. -/
theorem healthAllows_iff_admits (hc : c.enabled = true) :
    (c.HealthAllows s ↔ c.Admits s) ↔ c.ProbeAgrees s := by
  rw [healthAllows_iff hc, admits_iff hc]
  unfold ProbeAgrees
  rcases hread : readState s.file with e | ⟨persisted, expiry⟩
  · simp
  by_cases hl : persisted.latched = true
  · simp [hl]
  by_cases ho : overrideActive expiry s.now = true
  · simp [hl, ho]
  -- no window: the check hears the probe and the report does not
  unfold Full derivedState
  rcases hr : s.probe.freeRatio with e | ratio
  · simp [hl, ho, Except.map]
  · have hd : c.derivedState s.probe = .ok (stateFromRatio ratio c.lowRatio c.criticalRatio
        c.blockedRatio) := by
      rw [derivedState, hr]
      rfl
    simp [hl, ho, Except.map, ← derivedState_latched hd]

/-! ## The admission law -/

/-- What holds of a run from `s` to `t`: a latch refuses until the next clear, and a clear (made in
`r`) admits while its window is open, after which a full disk refuses and latches. -/
structure AdmissionRun (c : StorageContract) (s : StorageEnv) (es : List StorageEvent)
    (t : StorageEnv) : Prop where
  latched : s.file.Latched → (∀ e ∈ es, e.isClear = false) → ¬ c.Admits t
  window : ∀ r ttlS expires, c.clearBlock ttlS r = (.ok expires, s.file) → s.now = r.now →
    (∀ e ∈ es, e.isClear = false ∧ e.isMark = false) →
    (t.now < expires → c.Admits t) ∧
    (expires ≤ t.now → c.Full t.probe → ¬ c.Admits t ∧ (c.assertWriteAllowed t).2.Latched)

/-- The storage admission state machine: the law of its runs, and a report that agrees with the
check at every moment. -/
def StorageAdmission (c : StorageContract) : Prop :=
  ∀ s es t, run (storageStep c) s es = some t →
    AdmissionRun c s es t ∧ (c.HealthAllows t ↔ c.Admits t)

theorem afterClear_of_clearBlock {r : StorageEnv} {ttlS : Option Int} {file : ControlFile}
    (h : c.clearBlock ttlS r = (.ok expires, file)) :
    file = writeState .normal (some expires) := by
  unfold clearBlock at h
  dsimp only at h
  split_ifs at h with httl hmax
  · simp at h
  · simp at h
  · obtain ⟨hexp, rfl⟩ := Prod.mk.inj h
    rw [Except.ok.inj hexp]

theorem admissionRun (hc : c.enabled = true) (ht : run (storageStep c) s es = some t) :
    AdmissionRun c s es t where
  latched h hes := not_admits_of_latched hc (run_latched hes h ht)
  window r ttlS expires hclear _ hes := by
    have hafter : AfterClear expires t :=
      run_afterClear hes (Or.inl (afterClear_of_clearBlock hclear)) ht
    constructor
    · intro hlt
      rcases hafter with hf | ⟨hle, -⟩
      · rw [admits_iff hc, hf]
        exact ⟨.normal, some (.iso expires), rfl, rfl, Or.inl (overrideActive_iso.mpr hlt)⟩
      · exact absurd hle (Int.not_le.mpr hlt)
    · intro hle hfull
      rcases hafter with hf | ⟨-, state, hf⟩
      · refine latches_of_full hc hf ?_ hfull
        rw [← Bool.not_eq_true]
        exact fun ho => absurd hle (Int.not_le.mpr (overrideActive_iso.mp ho))
      · exact latches_of_full hc hf rfl hfull

/-- Of every run: the law of the runs holds, and the report agrees with the check exactly where the
probe has nothing to add. -/
theorem admission_law (c : StorageContract) (hc : c.enabled = true) (s : StorageEnv)
    (es : List StorageEvent) (t : StorageEnv) (ht : run (storageStep c) s es = some t) :
    AdmissionRun c s es t ∧ ((c.HealthAllows t ↔ c.Admits t) ↔ c.ProbeAgrees t) :=
  ⟨admissionRun hc ht, healthAllows_iff_admits hc⟩

/-! ## A lapsed window over a full disk -/

/-- The contract with the default ratios (0.15, 0.10 and 0.05) and the default window. -/
def byDefault : StorageContract where
  lowRatio := ⟨false, 5404319552844595, -55, by decide⟩
  criticalRatio := ⟨false, 7205759403792794, -56, by decide⟩
  blockedRatio := ⟨false, 7205759403792794, -57, by decide⟩
  overrideTtlS := 300
  enabled := true
  blocked_nonneg := by norm_num [Finite64.value, Finite64.abs]
  blocked_lt := by norm_num [Finite64.value, Finite64.abs]
  critical_lt := by norm_num [Finite64.value, Finite64.abs]
  low_le := by norm_num [Finite64.value, Finite64.abs]
  ttl_pos := by decide

/-- Nothing is written yet, and half of the disk is free. -/
def firstEnv : StorageEnv := ⟨.absent, 0, ⟨50, 100⟩⟩

/-- The operator clears, the window lapses, and the disk is full. -/
def lapsedRun : List StorageEvent := [.clearBlock none, .advance (300 * 10 ^ 6), .reading ⟨0, 100⟩]

def lapsedEnv : StorageEnv := ⟨writeState .normal (some (300 * 10 ^ 6)), 300 * 10 ^ 6, ⟨0, 100⟩⟩

theorem full_lapsedEnv : byDefault.Full lapsedEnv.probe := by
  have hratio : lapsedEnv.probe.freeRatio = .ok Finite64.zero := rfl
  unfold Full derivedState
  rw [hratio]
  norm_num [Except.map, stateFromRatio, byDefault, Finite64.value, Finite64.abs, Finite64.zero]

theorem admission_law_lapsed : AdmissionRun byDefault firstEnv lapsedRun lapsedEnv ∧
    ((byDefault.HealthAllows lapsedEnv ↔ byDefault.Admits lapsedEnv) ↔
      byDefault.ProbeAgrees lapsedEnv) :=
  admission_law byDefault rfl firstEnv lapsedRun lapsedEnv rfl

/-- Here `health` reports that writes are allowed, and a check raises. -/
theorem not_storageAdmission : ¬ StorageAdmission byDefault := by
  intro h
  have hagree := (h firstEnv lapsedRun lapsedEnv rfl).2
  have hprobe := (healthAllows_iff_admits rfl).mp hagree
  rcases hprobe with hl | ho
  · exact absurd hl (by decide)
  · rw [if_neg (by decide)] at ho
    exact ho full_lapsedEnv

end StorageContract

end Ledger
