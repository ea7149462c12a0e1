import Msb.Ledger.AnchorSpec

/-!
# Operations on the keys

The operations of a `ChainAnchor` on its two files, and what one of them can do: to the registry
as it is loaded (`KeyEffect`), and to the anchor (`Anchors`). The invariants of runs are derived
from these two alone.

* `apply_effect` — an operation, returned or raised, has one of the effects of `KeyEffect`
-/

namespace Ledger

open Py HashChain

/-- A call of an operation. -/
inductive KeyOp where
  | anchor (self : ChainAnchor) (now : Str)
  | notarize (self : ChainAnchor) (now : Str)
  | rotate (self : ChainAnchor) (newBackend : SigningBackend) (reason now : Str)
  | registerRecovery (self : ChainAnchor) (key : Bytes) (algorithm : KeyAlgorithm)
  | recover (self : ChainAnchor) (recoveryBackend : SigningBackend) (reason now : Str)
  | revoke (self : ChainAnchor) (keyToRevoke : Option Bytes) (reason now : Str)

namespace KeyOp

/-- The anchor object that the operation is called on. -/
def self : KeyOp → ChainAnchor
  | .anchor self _ | .notarize self _ | .rotate self _ _ _ | .registerRecovery self _ _
  | .recover self _ _ _ | .revoke self _ _ _ => self

/-- The key that alone signs the operation: it endorses, revokes or anchors. A rotation is
endorsed by the old key. -/
def signer : KeyOp → Option Bytes
  | .anchor self _ | .notarize self _ | .rotate self _ _ _ | .revoke self _ _ _ => some self.pub
  | .registerRecovery _ _ _ => none
  | .recover _ recoveryBackend _ _ => some recoveryBackend.publicKey

/-- The operations that write a registry where there is none. -/
def boots : KeyOp → Bool
  | .anchor _ _ | .notarize _ _ => false
  | _ => true

/-- The public keys have bytes. -/
def Keyed : KeyOp → Prop
  | .rotate self newBackend _ _ => self.pub ≠ [] ∧ newBackend.publicKey ≠ []
  | op => op.self.pub ≠ []

variable (P : Platform) (fromisoformat : IsoParser) (C : Crypto)

/-- The entry that the call adds to the notary log, or what it raised, and the files after it. -/
def apply (op : KeyOp) (chain : Chain) (store : AnchorStore) :
    Except PyError (Option NotaryEntry) × AnchorStore :=
  match op with
  | .anchor self now => (self.anchor P chain now store).map (·.map fun _ => none) id
  | .notarize self now => (self.buildNotaryEntry P chain now store).map (·.map some) id
  | .rotate self newBackend reason now =>
    (self.rotate P fromisoformat C chain newBackend reason now store).map (·.map fun _ => none) id
  | .registerRecovery self key algorithm =>
    (self.registerRecovery key algorithm store).map (·.map fun _ => none) id
  | .recover self recoveryBackend reason now =>
    (self.recover P fromisoformat C chain recoveryBackend reason now store).map
      (·.map fun _ => none) id
  | .revoke self keyToRevoke reason now =>
    (self.revoke P keyToRevoke reason now store).map (·.map fun _ => none) id

end KeyOp

/-! ## The registry as it is loaded -/

/-- The file loads as `reg`, and `reg` has no empty recovery key: it would be saved as it is. -/
structure Loads (store : AnchorStore) (reg : KeyRegistry) : Prop where
  load : KeyRegistry.load store.registry = .ok reg
  recovery_ne : reg.recoveryPublicKey ≠ some []

theorem loads_none (anchor : Option AnchorDoc) : Loads ⟨anchor, none⟩ .empty :=
  ⟨rfl, by simp [KeyRegistry.empty]⟩

theorem normal_recovery_ne (reg : KeyRegistry) : reg.normal.recoveryPublicKey ≠ some [] := by
  unfold KeyRegistry.normal
  rcases reg.recoveryPublicKey with _ | k
  · simp
  · by_cases hk : k = [] <;> simp [hk]

variable {store : AnchorStore} {reg : KeyRegistry} {self : ChainAnchor}

theorem loads_normal (h : store.registry = some reg.save) : Loads store reg.normal :=
  ⟨by rw [h, load_save], normal_recovery_ne reg⟩

theorem normal_of_recovery_ne (h : reg.recoveryPublicKey ≠ some []) :
    reg.normal = reg := by
  obtain ⟨current, algorithm, recovery, recoveryAlgorithm, rotations, revocations⟩ := reg
  rcases recovery with _ | k
  · rfl
  · have hk : k ≠ [] := fun hk => h (by rw [hk])
    simp [KeyRegistry.normal, hk]

/-- A registry without an empty recovery key loads as it was saved. -/
theorem loads_save (h : store.registry = some reg.save) (hrec : reg.recoveryPublicKey ≠ some []) :
    Loads store reg := by
  have hload := loads_normal h
  rw [normal_of_recovery_ne hrec] at hload
  exact hload

/-- Without a registry, the own key counts as current. -/
def ChainAnchor.boot (self : ChainAnchor) (reg : KeyRegistry) : KeyRegistry :=
  if reg.currentPublicKey = [] then
    { reg with currentPublicKey := self.pub, algorithm := self.algorithm }
  else reg

theorem ChainAnchor.boot_of_ne (h : reg.currentPublicKey ≠ []) : self.boot reg = reg := if_neg h

theorem boot_current_ne (h : self.pub ≠ []) (reg : KeyRegistry) :
    (self.boot reg).currentPublicKey ≠ [] := by
  unfold ChainAnchor.boot
  by_cases hne : reg.currentPublicKey = []
  · rw [if_pos hne]
    exact h
  · rw [if_neg hne]
    exact hne

/-- Booting changes the current key and its algorithm only. -/
@[simp] theorem ChainAnchor.boot_recoveryPublicKey (self : ChainAnchor) (reg : KeyRegistry) :
    (self.boot reg).recoveryPublicKey = reg.recoveryPublicKey := by
  unfold boot
  split <;> rfl

@[simp] theorem ChainAnchor.boot_rotations (self : ChainAnchor) (reg : KeyRegistry) :
    (self.boot reg).rotations = reg.rotations := by
  unfold boot
  split <;> rfl

@[simp] theorem ChainAnchor.boot_revocations (self : ChainAnchor) (reg : KeyRegistry) :
    (self.boot reg).revocations = reg.revocations := by
  unfold boot
  split <;> rfl

@[simp] theorem ChainAnchor.boot_isRevoked (self : ChainAnchor) (reg : KeyRegistry) (k : Bytes) :
    (self.boot reg).isRevoked k = reg.isRevoked k := by
  rw [KeyRegistry.isRevoked, boot_revocations, KeyRegistry.isRevoked]

theorem readRegistry_eq (h : Loads store reg) : self.readRegistry store = .ok (self.boot reg) := by
  unfold ChainAnchor.readRegistry ChainAnchor.boot
  rw [h.load]
  simp only [bind, Except.bind]
  split <;> rfl

/-- What booting leaves: the anchor untouched, and a file that loads as the booted registry. -/
theorem bootRegistry_eq (self : ChainAnchor) (h : Loads store reg) :
    ∃ store', self.bootRegistry store = .ok (self.boot reg, store') ∧
      store'.anchor = store.anchor ∧ Loads store' (self.boot reg) := by
  unfold ChainAnchor.bootRegistry ChainAnchor.boot
  rw [h.load]
  simp only [bind, Except.bind]
  by_cases hne : reg.currentPublicKey = []
  · rw [if_pos hne, if_pos hne]
    exact ⟨_, rfl, rfl, loads_save rfl h.recovery_ne⟩
  · rw [if_neg hne, if_neg hne]
    exact ⟨_, rfl, rfl, h⟩

/-! ## What an operation can do -/

/-- The backend signs the statement. -/
def SigningBackend.Endorses (P : Platform) (b : SigningBackend) (body : PyVal) : Prop :=
  ∃ signature, (canonicalBytes P body >>= b.sign) = .ok signature

theorem rotate_eq_ok {P : Platform} {b : SigningBackend} {toKey : Bytes} {algorithm : KeyAlgorithm}
    {reason now : Str} {result : RotationRecord × KeyRegistry}
    (h : reg.rotate P b toKey algorithm reason now = .ok result) :
    b.Endorses P (rotationBody (hex b.publicKey) (hex toKey) b.algorithm algorithm now reason) ∧
      result.1.fromKey = hex b.publicKey ∧
      result.2 = { reg with rotations := reg.rotations ++ [result.1], currentPublicKey := toKey,
                            algorithm := algorithm } := by
  obtain ⟨canonical, hcan, h⟩ := bind_eq_ok.mp h
  obtain ⟨signature, hsig, h⟩ := bind_eq_ok.mp h
  obtain rfl := Except.ok.inj h
  exact ⟨⟨signature, bind_eq_ok.mpr ⟨canonical, hcan, hsig⟩⟩, rfl, rfl⟩

theorem revoke_eq_ok {P : Platform} {reg' : KeyRegistry} {b : SigningBackend} {key : Bytes}
    {reason now : Str} {record : RevocationRecord}
    (h : reg.revoke P key reason b now = .ok (record, reg')) :
    b.Endorses P (revocationBody (hex key) now reason) ∧
      reg' = { reg with revocations := reg.revocations ++ [record] } := by
  obtain ⟨canonical, hcan, h⟩ := bind_eq_ok.mp h
  obtain ⟨signature, hsig, h⟩ := bind_eq_ok.mp h
  obtain ⟨rfl, rfl⟩ := Prod.mk.inj (Except.ok.inj h)
  exact ⟨⟨signature, bind_eq_ok.mpr ⟨canonical, hcan, hsig⟩⟩, rfl⟩

/-- The key that `revoke` is asked to revoke. -/
def revokeTarget (self : ChainAnchor) (keyToRevoke : Option Bytes) : Bytes :=
  (keyToRevoke.filter fun k => k ≠ []).getD self.pub

/-- What an operation does, from the guards it has passed: to the registry, and which backend then
signs an anchor. -/
inductive KeyEffect (P : Platform) :
    KeyOp → KeyRegistry → KeyRegistry → Option SigningBackend → Prop where
  | unchanged {op reg} : KeyEffect P op reg reg none
  | anchored {b now reg} : KeyEffect P (.anchor (.signing b) now) reg reg (some b)
  | notarized {b now reg} : KeyEffect P (.notarize (.signing b) now) reg reg (some b)
  | booted {op reg} (boots : op.boots = true) : KeyEffect P op reg (op.self.boot reg) none
  | rotated {b newBackend reason now reg record}
      (current : ((ChainAnchor.signing b).boot reg).isCurrent b.publicKey = true)
      (endorsed : b.Endorses P (rotationBody (hex b.publicKey) (hex newBackend.publicKey)
        b.algorithm newBackend.algorithm now reason))
      (fromKey : record.fromKey = hex b.publicKey) :
      KeyEffect P (.rotate (.signing b) newBackend reason now) reg
        { (ChainAnchor.signing b).boot reg with
          rotations := reg.rotations ++ [record]
          currentPublicKey := newBackend.publicKey
          algorithm := newBackend.algorithm } (some newBackend)
  | recoveryRegistered {self key algorithm reg} :
      KeyEffect P (.registerRecovery self key algorithm) reg
        ((self.boot reg).registerRecovery key algorithm).normal none
  | recovered {self recoveryBackend reason now reg record}
      (recovery : reg.recoveryPublicKey = some recoveryBackend.publicKey)
      (unrevoked : reg.isRevoked recoveryBackend.publicKey = false)
      (endorsed : recoveryBackend.Endorses P (rotationBody (hex recoveryBackend.publicKey)
        (hex recoveryBackend.publicKey) recoveryBackend.algorithm recoveryBackend.algorithm now
        (if reason = [] then lit "recovery: primary key lost" else reason))) :
      KeyEffect P (.recover self recoveryBackend reason now) reg
        { self.boot reg with
          rotations := reg.rotations ++ [record]
          currentPublicKey := recoveryBackend.publicKey
          algorithm := recoveryBackend.algorithm } (some recoveryBackend)
  | revoked {b keyToRevoke reason now reg record}
      (registered : ((ChainAnchor.signing b).boot reg).isRegistered
        (revokeTarget (.signing b) keyToRevoke) = true)
      (endorsed : b.Endorses P (revocationBody (hex (revokeTarget (.signing b) keyToRevoke))
        now reason)) :
      KeyEffect P (.revoke (.signing b) keyToRevoke reason now) reg
        { (ChainAnchor.signing b).boot reg with revocations := reg.revocations ++ [record] } none

/-- The anchor is left alone, or the signer has written a new one over the chain. -/
def Anchors (P : Platform) (chain : Chain) (signer : Option SigningBackend)
    (before after : Option AnchorDoc) : Prop :=
  after = before ∨ ∃ b now doc, signer = some b ∧
    (ChainAnchor.signing b).signedDoc P chain now = .ok doc ∧ after = some doc

variable {P : Platform} {fromisoformat : IsoParser} {C : Crypto}

theorem Loads.congr {store' : AnchorStore} (h : Loads store reg)
    (heq : store'.registry = store.registry) : Loads store' reg :=
  ⟨by rw [heq]; exact h.load, h.recovery_ne⟩

/-- `anchor` leaves the registry alone. -/
theorem anchor_eq (b : SigningBackend) (chain : Chain) (now : Str) (store : AnchorStore) :
    ((ChainAnchor.signing b).anchor P chain now store).2.registry = store.registry ∧
      Anchors P chain (some b) store.anchor
        ((ChainAnchor.signing b).anchor P chain now store).2.anchor := by
  unfold ChainAnchor.anchor
  cases hdoc : (ChainAnchor.signing b).signedDoc P chain now with
  | error e => exact ⟨rfl, Or.inl rfl⟩
  | ok doc => exact ⟨rfl, Or.inr ⟨b, now, doc, rfl, hdoc, rfl⟩⟩

/-- `build_notary_entry` makes at most the anchor that was missing. -/
theorem buildNotaryEntry_eq (self : ChainAnchor) (chain : Chain) (now : Str) (store : AnchorStore) :
    (self.buildNotaryEntry P chain now store).2 = store ∨
      (self.buildNotaryEntry P chain now store).2 = (self.anchor P chain now store).2 := by
  unfold ChainAnchor.buildNotaryEntry
  split
  · exact Or.inl rfl
  · split
    · next h => exact Or.inr (by rw [h])
    · next h => exact Or.inr (by rw [h])

/-- The files after the endorsement: the new registry, and the old anchor or one of the new key. -/
theorem reanchor_eq (newBackend : SigningBackend) (chain : Chain) (now : Str)
    (result : RotationRecord × KeyRegistry) (store : AnchorStore) :
    (reanchor P fromisoformat C newBackend chain now result store).2.registry
        = some result.2.save ∧
      Anchors P chain (some newBackend) store.anchor
        (reanchor P fromisoformat C newBackend chain now result store).2.anchor := by
  unfold reanchor ChainAnchor.anchor
  cases hdoc : (ChainAnchor.signing newBackend).signedDoc P chain now with
  | error e => exact ⟨rfl, Or.inl rfl⟩
  | ok doc =>
    simp only
    split <;> exact ⟨rfl, Or.inr ⟨newBackend, now, doc, rfl, hdoc, rfl⟩⟩

/-- **An operation, returned or raised, has one of the effects of `KeyEffect`.** -/
theorem apply_effect (op : KeyOp) (chain : Chain) (h : Loads store reg) :
    ∃ reg' signer, KeyEffect P op reg reg' signer ∧
      Loads (op.apply P fromisoformat C chain store).2 reg' ∧
      Anchors P chain signer store.anchor (op.apply P fromisoformat C chain store).2.anchor := by
  cases op with
  | anchor self now =>
    cases self with
    | verifyOnly k a => exact ⟨reg, none, .unchanged, h, Or.inl rfl⟩
    | signing b =>
      obtain ⟨hreg, hanchor⟩ := anchor_eq (P := P) b chain now store
      exact ⟨reg, some b, .anchored, h.congr hreg, hanchor⟩
  | notarize self now =>
    simp only [KeyOp.apply, Prod.map_snd, id]
    rcases buildNotaryEntry_eq (P := P) self chain now store with heq | heq
    · rw [heq]
      exact ⟨reg, none, .unchanged, h, Or.inl rfl⟩
    · rw [heq]
      cases self with
      | verifyOnly k a => exact ⟨reg, none, .unchanged, h, Or.inl rfl⟩
      | signing b =>
        obtain ⟨hreg, hanchor⟩ := anchor_eq (P := P) b chain now store
        exact ⟨reg, some b, .notarized, h.congr hreg, hanchor⟩
  -- `rotate` and `recover` put a registry on file before they can fail
  | rotate self newBackend reason now =>
    cases self with
    | verifyOnly k a => exact ⟨reg, none, .unchanged, h, Or.inl rfl⟩
    | signing b =>
      obtain ⟨store', hboot, hkeep, hloads⟩ := bootRegistry_eq (.signing b) h
      simp only [KeyOp.apply, Prod.map_snd, id, ChainAnchor.rotate, hboot]
      by_cases hcur : ((ChainAnchor.signing b).boot reg).isCurrent b.publicKey = true
      · rw [if_neg (by simp [ChainAnchor.pub, hcur])]
        split
        · exact ⟨_, none, .booted rfl, hloads, Or.inl hkeep⟩
        next result hrot =>
        obtain ⟨hend, hfrom, hreg⟩ := rotate_eq_ok hrot
        obtain ⟨hsave, hanchor⟩ := reanchor_eq (P := P) (C := C) newBackend chain now result store'
        rw [hkeep] at hanchor
        rw [ChainAnchor.boot_rotations] at hreg
        refine ⟨result.2, some newBackend, ?_, loads_save hsave ?_, hanchor⟩
        · rw [hreg]
          exact .rotated hcur hend hfrom
        · rw [hreg]
          exact hloads.recovery_ne
      · rw [if_pos (by simp [ChainAnchor.pub, hcur])]
        exact ⟨_, none, .booted rfl, hloads, Or.inl hkeep⟩
  | registerRecovery self key algorithm =>
    obtain ⟨store', hboot, hkeep, hloads⟩ := bootRegistry_eq self h
    simp only [KeyOp.apply, Prod.map_snd, id, ChainAnchor.registerRecovery, hboot]
    exact ⟨_, none, .recoveryRegistered, loads_normal rfl, Or.inl hkeep⟩
  | recover self recoveryBackend reason now =>
    obtain ⟨store', hboot, hkeep, hloads⟩ := bootRegistry_eq self h
    simp only [KeyOp.apply, Prod.map_snd, id, ChainAnchor.recover, hboot,
      ChainAnchor.boot_recoveryPublicKey]
    split
    · exact ⟨_, none, .booted rfl, hloads, Or.inl hkeep⟩
    next recovery hrec =>
    by_cases hkey : recoveryBackend.publicKey = recovery
    · rw [if_neg (not_not.mpr hkey)]
      by_cases hrev : (self.boot reg).isRevoked recoveryBackend.publicKey = true
      · rw [if_pos hrev]
        exact ⟨_, none, .booted rfl, hloads, Or.inl hkeep⟩
      · rw [if_neg hrev]
        split
        · exact ⟨_, none, .booted rfl, hloads, Or.inl hkeep⟩
        next result hrot =>
        obtain ⟨hend, -, hreg⟩ := rotate_eq_ok hrot
        obtain ⟨hsave, hanchor⟩ := reanchor_eq (P := P) (C := C) recoveryBackend chain now result
          store'
        rw [hkeep] at hanchor
        rw [ChainAnchor.boot_rotations] at hreg
        rw [Bool.not_eq_true, ChainAnchor.boot_isRevoked] at hrev
        refine ⟨result.2, some recoveryBackend, ?_, loads_save hsave ?_, hanchor⟩
        · rw [hreg]
          exact .recovered (by rw [hrec, hkey]) hrev hend
        · rw [hreg]
          exact hloads.recovery_ne
    · rw [if_pos hkey]
      exact ⟨_, none, .booted rfl, hloads, Or.inl hkeep⟩
  | revoke self keyToRevoke reason now =>
    cases self with
    | verifyOnly k a => exact ⟨reg, none, .unchanged, h, Or.inl rfl⟩
    | signing b =>
      obtain ⟨store', hboot, hkeep, hloads⟩ := bootRegistry_eq (.signing b) h
      simp only [KeyOp.apply, Prod.map_snd, id, ChainAnchor.revoke, hboot]
      split
      · exact ⟨_, none, .booted rfl, hloads, Or.inl hkeep⟩
      next hreg =>
      split
      · exact ⟨_, none, .booted rfl, hloads, Or.inl hkeep⟩
      next record reg' hrev =>
      obtain ⟨hend, rfl⟩ := revoke_eq_ok hrev
      rw [ChainAnchor.boot_revocations]
      refine ⟨_, none, .revoked ?_ hend, loads_save rfl hloads.recovery_ne, Or.inl hkeep⟩
      simp only [Bool.and_eq_true, Bool.not_eq_true', not_and, Bool.not_eq_false] at hreg
      by_cases hcur : ((ChainAnchor.signing b).boot reg).isCurrent
          (revokeTarget (.signing b) keyToRevoke) = true
      · simp [KeyRegistry.isRegistered, hcur]
      · exact hreg (Bool.not_eq_true _ ▸ hcur)

end Ledger
