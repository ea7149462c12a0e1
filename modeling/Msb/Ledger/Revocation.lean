import Msb.Infra.Run
import Msb.Ledger.KeyOps

/-!
# Revocation

Runs of the key operations, on any chains. A revocation is never taken back, and no verifier
accepts an anchor of a revoked key. But `revoke` does not ask who signs it, and `rotate` does not
ask whether the current key is revoked, so that much is up to the callers (`KeyOp.Proper`).

* `KeyEffect.isRevoked` — a revoked key stays revoked
* `verify_of_revoked` — an anchor of a revoked key is never valid
* `revocation_final` — in a run of proper calls, revocation is final
-/

namespace Ledger

open Py HashChain Machine

/-! ## Runs of key operations -/

/-- A call that was made, with the files before and after it. -/
structure KeyLogEntry where
  op : KeyOp
  before : AnchorStore
  after : AnchorStore

/-- The files, and the calls so far. -/
structure KeyState where
  store : AnchorStore
  log : List KeyLogEntry

/-- No files yet. -/
def KeyState.init : KeyState := ⟨⟨none, none⟩, []⟩

/-- A call on the chain as it is at that time. -/
def keyStep (P : Platform) (fromisoformat : IsoParser) (C : Crypto) (s : KeyState)
    (e : Chain × KeyOp) : Option KeyState :=
  let store := (e.2.apply P fromisoformat C e.1 s.store).2
  some ⟨store, s.log ++ [⟨e.2, s.store, store⟩]⟩

/-- A revocation changes the registry only where the current key signs it. -/
def RevokedByCurrent (d : KeyLogEntry) : Prop :=
  ∀ self target reason t, d.op = .revoke self target reason t →
    ∀ reg reg', KeyRegistry.load d.before.registry = .ok reg →
      KeyRegistry.load d.after.registry = .ok reg' → reg' ≠ reg →
      (self.boot reg).currentPublicKey = self.pub

/-- A call that a revoked key alone signs does not change the current key. -/
def CurrentKept (d : KeyLogEntry) : Prop :=
  ∀ k, d.op.signer = some k → ∀ reg reg', KeyRegistry.load d.before.registry = .ok reg →
    reg.isRevoked k = true → KeyRegistry.load d.after.registry = .ok reg' →
    reg'.currentPublicKey = reg.currentPublicKey

/-- The anchor that such a call writes is refused under the registry `now`, by whoever verifies. -/
def Refused (P : Platform) (fromisoformat : IsoParser) (C : Crypto) (now : AnchorStore)
    (d : KeyLogEntry) : Prop :=
  ∀ k, d.op.signer = some k → ∀ reg, KeyRegistry.load d.before.registry = .ok reg →
    reg.isRevoked k = true → ∀ doc, d.after.anchor = some doc → d.after.anchor ≠ d.before.anchor →
    ∀ (self : ChainAnchor) chain v,
      self.verify P fromisoformat C chain ⟨some doc, now.registry⟩ = .ok v → v.isValid = false

/-- Revocation is final, and only the current key revokes: of all calls so far, and as the files are
now. -/
structure RevocationFinal (P : Platform) (fromisoformat : IsoParser) (C : Crypto) (s : KeyState) :
    Prop where
  revoked_by_current : ∀ d ∈ s.log, RevokedByCurrent d
  current_kept : ∀ d ∈ s.log, CurrentKept d
  refused : ∀ d ∈ s.log, Refused P fromisoformat C s.store d

/-- The call does not misuse a key. Calls that raise before they change anything are not concerned:
the key is not the current one, the target is not registered, the device does not sign. -/
def KeyOp.Proper (P : Platform) (store : AnchorStore) : KeyOp → Prop
  | .rotate (.signing b) newBackend reason now =>
    ∀ reg, KeyRegistry.load store.registry = .ok reg →
      ((ChainAnchor.signing b).boot reg).isCurrent b.publicKey = true →
      b.Endorses P (rotationBody (hex b.publicKey) (hex newBackend.publicKey) b.algorithm
        newBackend.algorithm now reason) →
      reg.isRevoked b.publicKey = false ∨ newBackend.publicKey = b.publicKey
  | .revoke (.signing b) keyToRevoke reason now =>
    ∀ reg, KeyRegistry.load store.registry = .ok reg →
      ((ChainAnchor.signing b).boot reg).isRegistered (revokeTarget (.signing b) keyToRevoke)
        = true →
      b.Endorses P (revocationBody (hex (revokeTarget (.signing b) keyToRevoke)) now reason) →
      ((ChainAnchor.signing b).boot reg).currentPublicKey = b.publicKey
  | _ => True

variable {P : Platform} {fromisoformat : IsoParser} {C : Crypto}

/-! ## Revoked keys -/

/-- An operation takes no revocation back. -/
theorem KeyEffect.isRevoked {op : KeyOp} {reg reg' : KeyRegistry} {signer : Option SigningBackend}
    (h : KeyEffect P op reg reg' signer) {k : Bytes} (hk : reg.isRevoked k = true) :
    reg'.isRevoked k = true := by
  cases h with
  | unchanged | anchored | notarized => exact hk
  | booted => rw [ChainAnchor.boot_isRevoked]; exact hk
  | rotated | recoveryRegistered | recovered =>
    simpa [KeyRegistry.isRevoked, KeyRegistry.registerRecovery, KeyRegistry.normal] using hk
  | revoked =>
    rw [KeyRegistry.isRevoked, List.any_append, Bool.or_eq_true]
    exact Or.inl hk

/-- **An anchor of a revoked key is never valid.** -/
theorem verify_of_revoked {store : AnchorStore} {reg : KeyRegistry} (hloads : Loads store reg)
    {doc : AnchorDoc} (hdoc : store.anchor = some doc) {k : Bytes} (hkey : doc.publicKey = hex k)
    (hrev : reg.isRevoked k = true) {self : ChainAnchor} {chain : Chain} {v : AnchorVerdict}
    (h : self.verify P fromisoformat C chain store = .ok v) : v.isValid = false := by
  by_contra hvalid
  rw [Bool.not_eq_false] at hvalid
  obtain ⟨doc', _, anchorPub, reg', hdoc', -, hpub, hreg', hpass, -⟩ :=
    passesChecks_of_verify h (Or.inl hvalid)
  obtain rfl : doc = doc' := Option.some.inj (hdoc.symm.trans hdoc')
  rw [hkey, fromHexE_hex] at hpub
  obtain rfl := Except.ok.inj hpub
  rw [readRegistry_eq hloads] at hreg'
  obtain rfl := Except.ok.inj hreg'
  have hunrev := hpass.authorized.unrevoked
  rw [ChainAnchor.boot_isRevoked, hrev] at hunrev
  cases hunrev

/-! ## The invariant -/

/-- Nobody revokes before there is a current key. -/
def Founded (reg : KeyRegistry) : Prop := reg.revocations ≠ [] → reg.currentPublicKey ≠ []

theorem Founded.current_ne {reg : KeyRegistry} (h : Founded reg) {k : Bytes}
    (hk : reg.isRevoked k = true) : reg.currentPublicKey ≠ [] := by
  refine h fun hnil => ?_
  rw [KeyRegistry.isRevoked, hnil] at hk
  cases hk

theorem KeyEffect.founded {op : KeyOp} {reg reg' : KeyRegistry} {signer : Option SigningBackend}
    (h : KeyEffect P op reg reg' signer) (hop : op.Keyed) (hrec : reg.recoveryPublicKey ≠ some [])
    (hreg : Founded reg) : Founded reg' := by
  cases h with
  | unchanged | anchored | notarized => exact hreg
  | booted =>
    refine fun _ => boot_current_ne ?_ reg
    cases op with
    | rotate => exact hop.1
    | anchor | notarize | registerRecovery | recover | revoke => exact hop
  | rotated => exact fun _ => hop.2
  | recoveryRegistered => exact fun _ => boot_current_ne hop reg
  | recovered recovery =>
    refine fun _ hnil => hrec ?_
    rw [recovery]
    exact congrArg some hnil
  | revoked => exact fun _ => boot_current_ne hop reg

/-- Why such an anchor is refused: it carries the key, and the key is revoked. -/
def Marked (now : KeyRegistry) (d : KeyLogEntry) : Prop :=
  ∀ k, d.op.signer = some k → ∀ reg, KeyRegistry.load d.before.registry = .ok reg →
    reg.isRevoked k = true → ∀ doc, d.after.anchor = some doc → d.after.anchor ≠ d.before.anchor →
    doc.publicKey = hex k ∧ now.isRevoked k = true

theorem Marked.refused {now : AnchorStore} {reg : KeyRegistry} (hloads : Loads now reg)
    {d : KeyLogEntry} (h : Marked reg d) : Refused P fromisoformat C now d := by
  intro k hk reg' hreg' hrev doc hdoc hnew self chain v hv
  obtain ⟨hkey, hnow⟩ := h k hk reg' hreg' hrev doc hdoc hnew
  have hnowLoads : Loads ⟨some doc, now.registry⟩ reg := hloads.congr rfl
  exact verify_of_revoked hnowLoads rfl hkey hnow hv

/-- The registry loads, and every call so far was as it should be. -/
structure KeyInv (s : KeyState) (reg : KeyRegistry) : Prop where
  loads : Loads s.store reg
  founded : Founded reg
  revoked_by_current : ∀ d ∈ s.log, RevokedByCurrent d
  current_kept : ∀ d ∈ s.log, CurrentKept d
  marked : ∀ d ∈ s.log, Marked reg d

section

variable {op : KeyOp} {before after : AnchorStore} {reg reg' : KeyRegistry}
  {signer : Option SigningBackend}

theorem revokedByCurrent_of_effect (h : KeyEffect P op reg reg' signer)
    (hproper : op.Proper P before) (hbefore : Loads before reg) (hafter : Loads after reg') :
    RevokedByCurrent ⟨op, before, after⟩ := by
  rintro self target reason t rfl r r' hr hr' hne
  obtain rfl : reg = r := Except.ok.inj (hbefore.load.symm.trans hr)
  obtain rfl : reg' = r' := Except.ok.inj (hafter.load.symm.trans hr')
  cases h with
  | unchanged => exact absurd rfl hne
  | booted =>
    by_cases hnil : reg.currentPublicKey = []
    · rw [ChainAnchor.boot, if_pos hnil]
    · exact absurd (ChainAnchor.boot_of_ne hnil) hne
  | revoked registered endorsed => exact hproper reg hbefore.load registered endorsed

theorem currentKept_of_effect (h : KeyEffect P op reg reg' signer)
    (hproper : op.Proper P before) (hbefore : Loads before reg) (hfounded : Founded reg)
    (hafter : Loads after reg') : CurrentKept ⟨op, before, after⟩ := by
  intro k hk r r' hr hrev hr'
  obtain rfl : reg = r := Except.ok.inj (hbefore.load.symm.trans hr)
  obtain rfl : reg' = r' := Except.ok.inj (hafter.load.symm.trans hr')
  have hboot : ∀ self : ChainAnchor, self.boot reg = reg := fun self =>
    ChainAnchor.boot_of_ne (hfounded.current_ne hrev)
  cases h with
  | unchanged | anchored | notarized => rfl
  | booted => rw [hboot]
  | @rotated b newBackend reason now _ record current endorsed =>
    obtain rfl : b.publicKey = k := Option.some.inj hk
    -- a revoked current key may only endorse itself
    rcases hproper reg hbefore.load current endorsed with hun | hsame
    · rw [hun] at hrev
      cases hrev
    · rw [hboot] at current
      exact hsame.trans (isCurrent_iff.mp current).2
  | recoveryRegistered => cases hk
  | recovered _ unrevoked =>
    obtain rfl := Option.some.inj hk
    rw [unrevoked] at hrev
    cases hrev
  | revoked => simp only [hboot]

theorem marked_of_effect (h : KeyEffect P op reg reg' signer) (hproper : op.Proper P before)
    (hbefore : Loads before reg) {chain : Chain}
    (hanchor : Anchors P chain signer before.anchor after.anchor) :
    Marked reg' ⟨op, before, after⟩ := by
  intro k hk r hr hrev doc hdoc hnew
  obtain rfl : reg = r := Except.ok.inj (hbefore.load.symm.trans hr)
  refine ⟨?_, h.isRevoked hrev⟩
  rcases hanchor with hsame | ⟨b, now, doc', rfl, hsigned, hdoc'⟩
  · exact absurd hsame hnew
  obtain rfl : doc = doc' := Option.some.inj (hdoc.symm.trans hdoc')
  obtain ⟨_, _, -, -, -, hrec⟩ := signedDoc_eq_ok.mp hsigned
  have hkey : b.publicKey = k := by
    cases h with
    | anchored | notarized => exact Option.some.inj hk
    | rotated current endorsed =>
      obtain rfl := Option.some.inj hk
      rcases hproper reg hbefore.load current endorsed with hun | hsame
      · rw [ChainAnchor.pub, hun] at hrev
        cases hrev
      · exact hsame
    | recovered => exact Option.some.inj hk
  rw [hrec, hkey]

end

/-- **One call keeps the invariant**, where it is proper. -/
theorem KeyInv.step {s t : KeyState} {reg : KeyRegistry} (hs : KeyInv s reg) {e : Chain × KeyOp}
    (hkeyed : e.2.Keyed) (hproper : e.2.Proper P s.store)
    (h : keyStep P fromisoformat C s e = some t) : ∃ reg', KeyInv t reg' := by
  obtain ⟨chain, op⟩ := e
  obtain rfl := Option.some.inj h
  obtain ⟨reg', signer, heffect, hloads, hanchor⟩ :=
    apply_effect (P := P) (C := C) op chain hs.loads
  refine ⟨reg', hloads, heffect.founded hkeyed hs.loads.recovery_ne hs.founded, ?_, ?_, ?_⟩
  · rw [List.forall_mem_append, List.forall_mem_singleton]
    exact ⟨hs.revoked_by_current, revokedByCurrent_of_effect heffect hproper hs.loads hloads⟩
  · rw [List.forall_mem_append, List.forall_mem_singleton]
    exact ⟨hs.current_kept, currentKept_of_effect heffect hproper hs.loads hs.founded hloads⟩
  · rw [List.forall_mem_append, List.forall_mem_singleton]
    refine ⟨fun d hd k hk r hr hrev doc hdoc hnew => ?_,
      marked_of_effect heffect hproper hs.loads hanchor⟩
    obtain ⟨hkey, hnow⟩ := hs.marked d hd k hk r hr hrev doc hdoc hnew
    exact ⟨hkey, heffect.isRevoked hnow⟩

theorem keyInv_init : KeyInv .init .empty where
  loads := loads_none none
  founded h := absurd rfl h
  revoked_by_current _ hd := absurd hd List.not_mem_nil
  current_kept _ hd := absurd hd List.not_mem_nil
  marked _ hd := absurd hd List.not_mem_nil

/-- **Revocation is final in every run of proper calls.** -/
theorem revocation_final {es : List (Chain × KeyOp)} {s : KeyState}
    (hkeyed : ∀ e ∈ es, e.2.Keyed)
    (hproper : Along (keyStep P fromisoformat C) (fun t e => e.2.Proper P t.store) .init es)
    (h : run (keyStep P fromisoformat C) .init es = some s) :
    RevocationFinal P fromisoformat C s := by
  obtain ⟨reg, hinv⟩ : ∃ reg, KeyInv s reg :=
    run_invariant_along (I := fun t => ∃ reg, KeyInv t reg)
      (fun e he _ _ ⟨_, ht⟩ hq hu => ht.step (hkeyed e he) hq hu) ⟨_, keyInv_init⟩ hproper h
  exact ⟨hinv.revoked_by_current, hinv.current_kept, fun d hd =>
    (hinv.marked d hd).refused hinv.loads⟩

/-! ### Two runs -/

/-- The key `[1]` signs as it should: it revokes itself, and its anchor is then refused. -/
def properRun : List (Chain × KeyOp) :=
  [(⟨[], .ok []⟩, .revoke (.signing (.plain [1])) none [] []),
    (⟨[], .ok []⟩, .anchor (.signing (.plain [1])) [])]

theorem revocation_final_self : ∃ s, run (keyStep .tagged (fun _ => none) .plain) .init properRun
    = some s ∧ s.log.length = 2 ∧ RevocationFinal .tagged (fun _ => none) .plain s := by
  have hrun : (run (keyStep .tagged (fun _ => none) .plain) .init properRun).map
      (fun s => s.log.length) = some 2 := rfl
  obtain ⟨s, hs, hlen⟩ := Option.map_eq_some_iff.mp hrun
  refine ⟨s, hs, hlen, revocation_final ?_ ?_ hs⟩
  · simp [properRun, KeyOp.Keyed, KeyOp.self, ChainAnchor.pub, SigningBackend.plain]
  · refine ⟨?_, fun t _ => ⟨trivial, fun _ _ => trivial⟩⟩
    rintro reg hreg - -
    obtain rfl := Except.ok.inj hreg
    rfl

/-- The files after the calls. -/
def storeAfter (es : List (Chain × KeyOp)) : AnchorStore :=
  es.foldl (fun store e => (e.2.apply .tagged (fun _ => none) .plain e.1 store).2) ⟨none, none⟩

theorem run_three (a b c : Chain × KeyOp) :
    run (keyStep .tagged (fun _ => none) .plain) .init [a, b, c]
      = some ⟨storeAfter [a, b, c], [⟨a.2, storeAfter [], storeAfter [a]⟩,
          ⟨b.2, storeAfter [a], storeAfter [a, b]⟩,
          ⟨c.2, storeAfter [a, b], storeAfter [a, b, c]⟩]⟩ := rfl

/-- The key `[1]` becomes current and registers `[2]` for recovery. -/
def registerCall : Chain × KeyOp :=
  (⟨[], .ok []⟩, .registerRecovery (.signing (.plain [1])) [2] .ed25519)

/-- The recovery key revokes the current key. -/
def revokeCall : Chain × KeyOp :=
  (⟨[], .ok []⟩, .revoke (.signing (.plain [2])) (some [1]) [] [])

/-- The revoked key makes `[3]` the current key. -/
def rotateCall : Chain × KeyOp :=
  (⟨[], .ok []⟩, .rotate (.signing (.plain [1])) (.plain [3]) [] [])

theorem revocation_not_final : ∃ s, run (keyStep .tagged (fun _ => none) .plain) .init
    [registerCall, revokeCall, rotateCall] = some s ∧ (∃ d ∈ s.log, ¬RevokedByCurrent d) ∧
      ∃ d ∈ s.log, ¬CurrentKept d := by
  have hfirst : KeyRegistry.load (storeAfter [registerCall]).registry
      = .ok ⟨[1], .ed25519, some [2], some .ed25519, [], []⟩ := by decide +kernel
  have hsecond : ((KeyRegistry.load (storeAfter [registerCall, revokeCall]).registry).toOption.map
      fun reg => (reg.currentPublicKey, reg.isRevoked [1])) = some ([1], true) := by decide +kernel
  have hthird : ((KeyRegistry.load (storeAfter
      [registerCall, revokeCall, rotateCall]).registry).toOption.map
      fun reg => reg.currentPublicKey) = some [3] := by decide +kernel
  obtain ⟨reg₂, hreg₂, hflags⟩ := Option.map_eq_some_iff.mp hsecond
  obtain ⟨reg₃, hreg₃, hcur₃⟩ := Option.map_eq_some_iff.mp hthird
  rw [toOption_eq_some] at hreg₂ hreg₃
  obtain ⟨hcur₂, hrev⟩ := Prod.mk.inj hflags
  refine ⟨_, run_three _ _ _, ⟨_, List.mem_cons_of_mem _ List.mem_cons_self, fun h => ?_⟩,
    ⟨_, List.mem_cons_of_mem _ (List.mem_cons_of_mem _ List.mem_cons_self), fun h => ?_⟩⟩
  · have hne : reg₂ ≠ ⟨[1], .ed25519, some [2], some .ed25519, [], []⟩ := by
      rintro rfl
      cases hrev
    have heq := h (.signing (.plain [2])) (some [1]) [] [] rfl _ _ hfirst hreg₂ hne
    exact absurd heq (by decide)
  · have heq := h [1] rfl _ _ hreg₂ hrev hreg₃
    rw [hcur₂, hcur₃] at heq
    exact absurd heq (by decide)

end Ledger
