import Msb.Agent.Identity
import Msb.Infra.PyReload

/-!
# Revocation and drift

A registration replaces the whole row, with the flag that the identity carries, so a revoked agent
is granted again by whoever registers its id. And the fingerprint of a row is stored: an edit of the
grant leaves it as it was, and an identity that is built with one keeps it.

* `grants_hold` — both parts of the claim, in the runs that keep clear of this
-/

namespace Agent

open Py Ledger Machine

/-! ## What is claimed -/

/-- Two identities with one grant. -/
structure SameGrant (a b : AgentIdentity) : Prop where
  providerId : a.providerId = b.providerId
  model : a.model = b.model
  capabilities : ∀ v, v ∈ a.grantedCapabilities ↔ v ∈ b.grantedCapabilities
  tenantScope : a.tenantScope = b.tenantScope
  autonomyLevel : a.autonomyLevel = b.autonomyLevel
  maxRiskTier : a.maxRiskTier = b.maxRiskTier

/-- What is hashed of the identities that are registered. -/
def payloads (P : Hashing) (es : List AgentRegistry.Event) : Set Bytes :=
  {b | ∃ f, .call (.register f) ∈ es ∧ f.payload P = .ok b}

/-- Who registers the id of a revoked agent registers it as revoked, or grants nothing. -/
def KeepsRevoked (s : AgentRegistry) : AgentRegistry.Call → Prop
  | .register f => f.agentId ∈ s.revokedIds → f.revoked = true ∨ f.grantedCapabilities = []
  | .revoke _ => True

/-- The columns say what the row says, the capabilities in any order. -/
structure SameColumns (r : AgentRow) (c : GrantColumns) : Prop where
  providerId : c.providerId = r.providerId
  model : c.model = r.model
  capabilities : ∃ xs ys : List Str, AgentRegistry.capabilitiesOf r.grantedCapabilities =
    .ok (xs.map .str) ∧
    AgentRegistry.capabilitiesOf c.grantedCapabilities = .ok (ys.map .str) ∧ ys.Perm xs
  tenantScope : c.tenantScope = r.tenantScope
  autonomyLevel : c.autonomyLevel = r.autonomyLevel
  maxRiskTier : c.maxRiskTier = r.maxRiskTier

/-- No fingerprint is registered but the computed one, and no edit changes a grant. -/
def Truthful (P : Hashing) (s : AgentRegistry) : AgentRegistry.Event → Prop
  | .call (.register f) => f.fingerprint = [] ∨ computeFingerprint P f.toGrant = .ok f.fingerprint
  | .call (.revoke _) => True
  | .edit agentId c => ∀ r ∈ s.rows, r.agentId = agentId → SameColumns r c

/-! ## What is hashed -/

variable {P : Hashing}

/-- Two dicts with one tree have trees of one kind under each of their keys. -/
theorem toJson_value_eq {S : KeySort} {xs ys : List (PyKey × PyVal)}
    (h : toJson S true (.dict xs) = toJson S true (.dict ys))
    (hxs : ∀ p ∈ xs, p.1.isStr = true) (hys : ∀ p ∈ ys, p.1.isStr = true)
    (hnodup : (ys.map Prod.fst).Nodup)
    {k : PyKey} {v w : PyVal} (hv : (k, v) ∈ xs) (hw : (k, w) ∈ ys) :
    toJson S true v = toJson S true w := by
  simp only [toJson, toJsonItems_eq, if_true, Json.obj.injEq] at h
  have hperm :=
    ((S.perm (xs.map fun p => (p.1, toJson S true p.2))).symm.map fun p => (keyText p.1, p.2)).trans
    (List.Perm.of_eq h)
  have hmem : (keyText k, toJson S true v) ∈ (S.sort (ys.map fun p => (p.1, toJson S true p.2))).map
      fun p => (keyText p.1, p.2) :=
    hperm.subset (List.mem_map_of_mem (f := fun p : PyKey × Json => (keyText p.1, p.2))
      (List.mem_map_of_mem hv))
  obtain ⟨q, hq, hkey⟩ := List.mem_map.mp hmem
  obtain ⟨p, hp, rfl⟩ := List.mem_map.mp ((S.perm _).subset hq)
  obtain ⟨htext, hvalue⟩ := Prod.mk.inj hkey
  have hsame : p.1 = k := keyText_injective (hys p hp) (hxs _ hv) htext
  have hpw : p = (k, w) := List.inj_on_of_nodup_map hnodup hp hw hsame
  subst hpw
  exact hvalue.symm

variable {g g' : Grant} {b : Bytes}

theorem Grant.payload_eq_ok (h : g.payload P = .ok b) :
    encode (render plainStyle (toJson P.keySort true (.dict g.items))) = some b := by
  unfold Grant.payload at h
  obtain ⟨text, htext, hencode⟩ := bind_eq_ok.mp h
  unfold dumps at htext
  split at htext
  · cases htext
  · obtain rfl := Except.ok.inj htext
    exact encodeE_eq_ok.mp hencode

/-- The values under one key of two payloads. -/
theorem Grant.value_eq (h : g.payload P = .ok b) (h' : g'.payload P = .ok b) (k : PyKey)
    {v w : PyVal} (hv : (k, v) ∈ g.items) (hw : (k, w) ∈ g'.items) :
    toJson P.keySort true v = toJson P.keySort true w := by
  have hstr : ∀ g : Grant, ∀ p ∈ g.items, p.1.isStr = true := by
    intro g p hp
    simp only [items, List.mem_cons, List.not_mem_nil, or_false] at hp
    rcases hp with rfl | rfl | rfl | rfl | rfl | rfl <;> rfl
  have hnodup : (g'.items.map Prod.fst).Nodup := by
    simp only [items, List.map_cons, List.map_nil]
    decide +kernel
  exact toJson_value_eq
    (render_injective plainStyle rfl (encode_injective (payload_eq_ok h) (payload_eq_ok h')))
    (hstr g) (hstr g') hnodup hv hw

theorem Grant.text_eq (h : g.payload P = .ok b) (h' : g'.payload P = .ok b) (k : PyKey) {s t : Str}
    (hs : (k, .str s) ∈ g.items) (ht : (k, .str t) ∈ g'.items) : s = t :=
  Json.str.inj (Grant.value_eq h h' k hs ht)

theorem Grant.number_eq (h : g.payload P = .ok b) (h' : g'.payload P = .ok b) (k : PyKey)
    {m n : Int} (hm : (k, .int m) ∈ g.items) (hn : (k, .int n) ∈ g'.items) : m = n :=
  Json.int.inj (Grant.value_eq h h' k hm hn)

/-- **The payload says what the grant is.** -/
theorem Grant.payload_inj (h : g.payload P = .ok b) (h' : g'.payload P = .ok b) :
    g.providerId = g'.providerId ∧ g.model = g'.model ∧
    g.grantedCapabilities.Perm g'.grantedCapabilities ∧
      g.tenantScope = g'.tenantScope ∧ g.autonomyLevel = g'.autonomyLevel ∧
      g.maxRiskTier = g'.maxRiskTier := by
  refine ⟨?_, ?_, ?_, ?_, ?_, ?_⟩
  · exact Grant.text_eq h h' (.str (lit "provider_id")) (by simp [items]) (by simp [items])
  · exact Grant.text_eq h h' (.str (lit "model")) (by simp [items]) (by simp [items])
  · have htree := Grant.value_eq h h' (.str (lit "granted_capabilities"))
      (v := .list ((g.grantedCapabilities.insertionSort (· ≤ ·)).map .str))
      (w := .list ((g'.grantedCapabilities.insertionSort (· ≤ ·)).map .str)) (by simp [items])
        (by simp [items])
    simp only [toJson, toJsonElems_eq, List.map_map, Json.arr.injEq] at htree
    have hsorted := List.map_injective_iff.mpr (fun _ _ => Json.str.inj) htree
    exact (List.perm_insertionSort _ _).symm.trans
      ((List.Perm.of_eq hsorted).trans (List.perm_insertionSort _ _))
  · exact Grant.text_eq h h' (.str (lit "tenant_scope")) (by simp [items]) (by simp [items])
  · exact Grant.number_eq h h' (.str (lit "autonomy_level")) (by simp [items]) (by simp [items])
  · exact Grant.number_eq h h' (.str (lit "max_risk_tier")) (by simp [items]) (by simp [items])

namespace AgentRegistry

/-! ## What is stored -/

/-- A list of texts is read as it was written. -/
theorem capabilitiesOf_dumps {xs : List Str} {text : Str}
    (h : dumps P.keySort true plainStyle (.list (xs.map .str)) = .ok text) :
    capabilitiesOf text = .ok (xs.map .str) := by
  unfold dumps at h
  split at h
  · cases h
  · obtain rfl := Except.ok.inj h
    have hloads : loads (render plainStyle (toJson P.keySort true (.list (xs.map .str)))) =
        .ok (.list (xs.map .str)) := by
      rw [loads, parse_render plainStyle rfl]
      simp [toJson, ofJson]
    unfold capabilitiesOf
    rw [hloads]

/-- What a registration writes. -/
theorem rowOf_eq_ok {a : AgentIdentity} {row : AgentRow} (h : rowOf P a = .ok row) :
    ∃ text, dumps P.keySort true plainStyle (.list a.grantedCapabilities) = .ok text ∧
      row = ⟨a.agentId, a.name, a.kind, a.providerId, a.model, text, a.tenantScope, a.autonomyLevel,
        a.maxRiskTier, a.fingerprint, a.createdAt, a.revoked, a.stamped⟩ := by
  unfold rowOf at h
  obtain ⟨text, htext, h⟩ := bind_eq_ok.mp h
  obtain ⟨-, -, h⟩ := bind_eq_ok.mp h
  obtain ⟨-, -, h⟩ := bind_eq_ok.mp h
  exact ⟨text, htext, (Except.ok.inj h).symm⟩

/-- A call that registers leaves the rows, or puts one that says what the fields say. -/
theorem run_register (s : AgentRegistry) (f : IdentityFields) :
    (Call.register f).run P s = s ∨ ∃ row, (Call.register f).run P s =
    { s with rows := Keyed.put AgentRow.agentId row s.rows } ∧
      row.agentId = f.agentId ∧ row.providerId = f.providerId ∧ row.model = f.model ∧
      capabilitiesOf row.grantedCapabilities = .ok (f.grantedCapabilities.map .str) ∧
        row.tenantScope = f.tenantScope ∧
      row.autonomyLevel = f.autonomyLevel ∧ row.maxRiskTier = f.maxRiskTier ∧
        row.revoked = f.revoked ∧
      (row.fingerprint = f.fingerprint ∨ f.fingerprint = [] ∧ computeFingerprint P f.toGrant =
          .ok row.fingerprint) := by
  simp only [Call.run]
  cases hrun : f.construct P >>= s.register P with
  | error e => exact Or.inl rfl
  | ok t =>
    obtain ⟨a, ha, ht⟩ := bind_eq_ok.mp hrun
    obtain ⟨row, hrow, ht⟩ := bind_eq_ok.mp ht
    obtain ⟨text, htext, rfl⟩ := rowOf_eq_ok hrow
    obtain rfl := Except.ok.inj ht
    refine Or.inr ⟨_, rfl, ?_⟩
    unfold IdentityFields.construct at ha
    split at ha
    · obtain rfl := Except.ok.inj ha
      exact ⟨rfl, rfl, rfl, capabilitiesOf_dumps htext, rfl, rfl, rfl, rfl, Or.inl rfl⟩
    · next hblank =>
      obtain ⟨payload, hpayload, rfl⟩ := map_eq_ok.mp ha
      refine ⟨rfl, rfl, rfl, capabilitiesOf_dumps htext, rfl, rfl, rfl, rfl,
        Or.inr ⟨not_not.mp hblank, ?_⟩⟩
      unfold computeFingerprint
      rw [hpayload]
      rfl

variable {s : AgentRegistry} {es : List Event}

/-- What `get` returns is the row. -/
theorem get_eq_ok {agentId : Str} {a : AgentIdentity} (h : s.get agentId = .ok a) :
    ∃ r ∈ s.rows, r.agentId = agentId ∧ capabilitiesOf r.grantedCapabilities =
    .ok a.grantedCapabilities ∧
      a.providerId = r.providerId ∧ a.model = r.model ∧ a.tenantScope = r.tenantScope ∧
      a.autonomyLevel = r.autonomyLevel ∧
      a.maxRiskTier = r.maxRiskTier ∧ a.revoked = r.revoked ∧ a.fingerprint = r.fingerprint := by
  unfold get at h
  obtain ⟨-, -, h⟩ := bind_eq_ok.mp h
  split at h
  · cases h
  · next r hr =>
    obtain ⟨capabilities, hcapabilities, h⟩ := bind_eq_ok.mp h
    obtain rfl := Except.ok.inj h
    obtain ⟨hmem, hid⟩ := Keyed.find_key hr
    exact ⟨r, hmem, hid, hcapabilities, rfl, rfl, rfl, rfl, rfl, rfl, rfl⟩

/-- What a call of `revoke` does. -/
theorem revoke_cases (s : AgentRegistry) (agentId : Str) :
    (s.revoke agentId).2 = s ∨
      encode agentId ≠ none ∧ (∃ r ∈ s.rows, r.agentId = agentId) ∧
        (s.revoke agentId).2.rows = (s.modify agentId fun r => { r with revoked := true }).rows ∧
        ∀ i ∈ (s.revoke agentId).2.revokedIds, i ∈ s.revokedIds ∨ i = agentId := by
  unfold revoke
  by_cases hencode : encode agentId = none
  · rw [if_pos hencode]
    exact Or.inl rfl
  rw [if_neg hencode]
  cases hfind : Keyed.find AgentRow.agentId agentId s.rows with
  | none => exact Or.inl rfl
  | some r =>
    refine Or.inr ⟨hencode, ⟨r, Keyed.find_key hfind⟩, ?_⟩
    dsimp only
    split
    · exact ⟨rfl, fun i hi => Or.inl hi⟩
    · exact ⟨rfl, fun i hi => (List.mem_append.mp hi).imp_right List.mem_singleton.mp⟩

/-! ## Revocation -/

/-- The row grants nothing. -/
def Idle (r : AgentRow) : Prop := r.revoked = true ∨ capabilitiesOf r.grantedCapabilities = .ok []

/-- A revoked id has a row that grants nothing, and every row is one that a registration wrote. -/
structure Kept (s : AgentRegistry) : Prop where
  unique : Keyed.Unique AgentRow.agentId s.rows
  written : ∀ r ∈ s.rows, ∃ xs : List Str, capabilitiesOf r.grantedCapabilities = .ok (xs.map .str)
  revoked : ∀ agentId ∈ s.revokedIds, ∃ r ∈ s.rows, r.agentId = agentId ∧ Idle r
  encoded : ∀ agentId ∈ s.revokedIds, encode agentId ≠ none

theorem kept_empty : Kept empty := by
  refine ⟨Keyed.unique_nil, ?_, ?_, ?_⟩
  · intro r hr
    exact absurd hr List.not_mem_nil
  · intro agentId hid
    exact absurd hid List.not_mem_nil
  · intro agentId hid
    exact absurd hid List.not_mem_nil

theorem Kept.register (h : Kept s) {f : IdentityFields}
    (hf : f.agentId ∈ s.revokedIds → f.revoked = true ∨ f.grantedCapabilities = []) :
    Kept ((Call.register f).run P s) := by
  rcases run_register s f with hrun | ⟨row, hrun, hid, -, -, hcapabilities, -, -, -, hrevoked, -⟩
  · rw [hrun]
    exact h
  rw [hrun]
  refine ⟨h.unique.put, ?_, ?_, h.encoded⟩
  · intro r hr
    by_cases hkey : r.agentId = row.agentId
    · obtain rfl := h.unique.put.eq_of_mem hr Keyed.mem_put_self hkey
      exact ⟨f.grantedCapabilities, hcapabilities⟩
    · exact h.written r ((Keyed.mem_put_of_ne hkey).mp hr)
  · intro agentId hmem
    by_cases hkey : agentId = row.agentId
    · refine ⟨row, Keyed.mem_put_self, hkey.symm, ?_⟩
      rcases hf (hid ▸ hkey ▸ hmem) with hflag | hnil
      · exact Or.inl (hrevoked.trans hflag)
      · rw [hnil] at hcapabilities
        exact Or.inr hcapabilities
    · obtain ⟨r, hr, rfl, hflag⟩ := h.revoked agentId hmem
      exact ⟨r, (Keyed.mem_put_of_ne hkey).mpr hr, rfl, hflag⟩

theorem Kept.revoke (h : Kept s) (agentId : Str) : Kept (s.revoke agentId).2 := by
  rcases revoke_cases s agentId with hrun | ⟨hencode, ⟨r₀, hr₀, hid₀⟩, hrows, hids⟩
  · rw [hrun]
    exact h
  refine ⟨?_, ?_, ?_, ?_⟩
  · have hkeys : (s.modify agentId fun r => { r with revoked := true }).rows.map AgentRow.agentId =
        s.rows.map AgentRow.agentId := by
      unfold modify
      rw [List.map_map]
      refine List.map_congr_left fun r _ => ?_
      rw [Function.comp_apply]
      split <;> rfl
    unfold Keyed.Unique
    rw [hrows, hkeys]
    exact h.unique
  · intro r hr
    rw [hrows] at hr
    obtain ⟨q, hq, rfl⟩ := List.mem_map.mp hr
    dsimp only
    split
    · exact h.written q hq
    · exact h.written q hq
  · intro i hi
    rw [hrows]
    rcases hids i hi with hold | rfl
    · obtain ⟨r, hr, rfl, hflag⟩ := h.revoked i hold
      refine ⟨_, List.mem_map_of_mem hr, ?_⟩
      split
      · exact ⟨rfl, Or.inl rfl⟩
      · exact ⟨rfl, hflag⟩
    · refine ⟨_, List.mem_map_of_mem hr₀, ?_⟩
      rw [if_pos hid₀]
      exact ⟨hid₀, Or.inl rfl⟩
  · intro i hi
    rcases hids i hi with hold | rfl
    · exact h.encoded i hold
    · exact hencode

/-- A revoked agent has no capability. -/
theorem Kept.hasCapability (h : Kept s) {agentId : Str} (hmem : agentId ∈ s.revokedIds)
    (capability : Str) :
    s.hasCapability agentId capability = .ok false := by
  obtain ⟨r, hr, hid, hflag⟩ := h.revoked agentId hmem
  obtain ⟨xs, hxs⟩ := h.written r hr
  have hfind : Keyed.find AgentRow.agentId agentId s.rows = some r :=
    (Keyed.find_eq_some h.unique).mpr ⟨hr, hid⟩
  have hget : s.get agentId = .ok ⟨r.agentId, r.name, r.kind, r.providerId, r.model, xs.map .str,
    r.tenantScope, r.autonomyLevel,
      r.maxRiskTier, r.createdAt, r.revoked, r.fingerprint, r.stamped⟩ := by
    unfold get
    rw [raiseIf, if_neg (h.encoded agentId hmem), hfind]
    simp only [hxs]
    rfl
  unfold AgentRegistry.hasCapability
  rw [hget]
  rcases hflag with hflag | hnil
  · simp [AgentIdentity.hasCapability, hflag]
  · rw [hxs] at hnil
    simp [AgentIdentity.hasCapability, Except.ok.inj hnil]

/-- What one call keeps. -/
theorem Kept.run (h : Kept s) {c : Call} (hc : KeepsRevoked s c) : Kept (c.run P s) := by
  cases c with
  | register f => exact h.register hc
  | revoke agentId => exact h.revoke agentId

/-! ## Drift -/

/-- The row says what one of the registered identities says, the fingerprint included. -/
def Matches (P : Hashing) (es : List Event) (r : AgentRow) : Prop :=
  ∃ f b, .call (.register f) ∈ es ∧ f.payload P = .ok b ∧ r.fingerprint = P.truncated b ∧
    r.providerId = f.providerId ∧
    r.model = f.model ∧ r.tenantScope = f.tenantScope ∧ r.autonomyLevel = f.autonomyLevel ∧
    r.maxRiskTier = f.maxRiskTier ∧
    ∃ xs : List Str, capabilitiesOf r.grantedCapabilities = .ok (xs.map .str) ∧
      xs.Perm f.grantedCapabilities

/-- An edit that says what the row says. -/
theorem Matches.edited {r : AgentRow} {c : GrantColumns} (h : Matches P es r)
    (hc : SameColumns r c) : Matches P es (r.edited c) := by
  obtain ⟨f, b, hf, hpayload, hfingerprint, hprovider, hmodel, htenant, hlevel, htier, xs, hxs,
    hperm⟩ := h
  obtain ⟨xs', ys, hxs', hys, hperm'⟩ := hc.capabilities
  have hsame : xs' = xs :=
    List.map_injective_iff.mpr (fun _ _ => PyVal.str.inj) (Except.ok.inj (hxs'.symm.trans hxs))
  subst hsame
  exact ⟨f, b, hf, hpayload, hfingerprint, hc.providerId.trans hprovider, hc.model.trans hmodel,
    hc.tenantScope.trans htenant,
    hc.autonomyLevel.trans hlevel, hc.maxRiskTier.trans htier, ys, hys, hperm'.trans hperm⟩

/-- **What one step keeps.** -/
theorem matches_step {t : AgentRegistry} {e : Event} (h : ∀ r ∈ s.rows, Matches P es r)
    (hmem : e ∈ es) (he : Truthful P s e) (hstep : step P s e = some t) :
    ∀ r ∈ t.rows, Matches P es r := by
  cases e with
  | call c =>
    obtain rfl := Option.some.inj hstep
    cases c with
    | register f =>
      rcases run_register s f with hrun | ⟨row, hrun, -, hprovider, hmodel, hcapabilities, htenant,
        hlevel, htier, -, hfingerprint⟩
      · rw [hrun]
        exact h
      have hcomputed : computeFingerprint P f.toGrant = .ok row.fingerprint := by
        rcases hfingerprint with hgiven | ⟨-, hblank⟩
        · rcases he with hnil | hcomputed
          · exact absurd (hgiven.trans hnil) row.stamped
          · rw [hgiven]
            exact hcomputed
        · exact hblank
      obtain ⟨b, hb, hstamp⟩ := map_eq_ok.mp hcomputed
      intro r hr
      rw [hrun] at hr
      rcases Keyed.mem_of_mem_put hr with rfl | hr
      · exact ⟨f, b, hmem, hb, hstamp.symm, hprovider, hmodel, htenant, hlevel, htier, _,
          hcapabilities, List.Perm.refl _⟩
      · exact h r hr
    | revoke agentId =>
      rcases revoke_cases s agentId with hrun | ⟨-, -, hrows, -⟩
      · rw [show Call.run P s (.revoke agentId) = s from hrun]
        exact h
      intro r hr
      rw [show (Call.run P s (.revoke agentId)).rows = _ from hrows] at hr
      obtain ⟨q, hq, rfl⟩ := List.mem_map.mp hr
      dsimp only
      split
      · exact h q hq
      · exact h q hq
  | edit agentId c =>
    obtain rfl := Option.some.inj hstep
    intro r hr
    obtain ⟨q, hq, rfl⟩ := List.mem_map.mp hr
    dsimp only
    split
    · next hid => exact (h q hq).edited (he q hq hid)
    · exact h q hq

/-- Two identities with one fingerprint. -/
theorem sameGrant_of_matches (hinj : Set.InjOn P.truncated (payloads P es)) {t : AgentRegistry}
    (hs : ∀ r ∈ s.rows, Matches P es r) (ht : ∀ r ∈ t.rows, Matches P es r) {i j : Str}
    {a b : AgentIdentity} (ha : s.get i = .ok a) (hb : t.get j = .ok b)
    (hfingerprint : a.fingerprint = b.fingerprint) : SameGrant a b := by
  obtain ⟨r, hr, -, hcaps, hprovider, hmodel, htenant, hlevel, htier, -, hstamp⟩ := get_eq_ok ha
  obtain ⟨r', hr', -, hcaps', hprovider', hmodel', htenant', hlevel', htier', -, hstamp'⟩ :=
    get_eq_ok hb
  obtain ⟨f, x, hf, hx, hfx, hfprovider, hfmodel, hftenant, hflevel, hftier, xs, hxs, hperm⟩ :=
    hs r hr
  obtain ⟨f', x', hf', hx', hfx', hfprovider', hfmodel', hftenant', hflevel', hftier', xs', hxs',
    hperm'⟩ := ht r' hr'
  have hpayload : x = x' := by
    refine hinj ⟨f, hf, hx⟩ ⟨f', hf', hx'⟩ ?_
    rw [← hfx, ← hfx', ← hstamp, ← hstamp']
    exact hfingerprint
  subst hpayload
  obtain ⟨gprovider, gmodel, gcaps, gtenant, glevel, gtier⟩ := Grant.payload_inj hx hx'
  refine ⟨?_, ?_, ?_, ?_, ?_, ?_⟩
  · rw [hprovider, hprovider', hfprovider, hfprovider', gprovider]
  · rw [hmodel, hmodel', hfmodel, hfmodel', gmodel]
  · have hall : xs.Perm xs' := hperm.trans (gcaps.trans hperm'.symm)
    rw [Except.ok.inj (hcaps.symm.trans hxs), Except.ok.inj (hcaps'.symm.trans hxs')]
    exact fun v => (hall.map PyVal.str).mem_iff
  · rw [htenant, htenant', hftenant, hftenant', gtenant]
  · rw [hlevel, hlevel', hflevel, hflevel', glevel]
  · rw [htier, htier', hftier, hftier', gtier]

/-! ## Every run -/

/-- **Revocation and drift**: where a revoked id is registered as revoked or without a capability,
it has none ever after; and where no fingerprint is registered but the computed one and no edit
changes a grant, identities with one fingerprint have one grant. -/
theorem grants_hold (P : Hashing) :
    (∀ cs s, run (callStep P) empty cs = some s → Along (callStep P) KeepsRevoked empty cs →
      ∀ agentId ∈ s.revokedIds, ∀ capability, s.hasCapability agentId capability = .ok false) ∧
    ∀ es, Along (step P) (Truthful P) empty es → Set.InjOn P.truncated (payloads P es) →
      ∀ fs gs, fs <+: es → gs <+: es → ∀ s t, run (step P) empty fs = some s →
      run (step P) empty gs = some t →
        ∀ i j a b, s.get i = .ok a → t.get j = .ok b → a.fingerprint = b.fingerprint →
        SameGrant a b := by
  constructor
  · intro cs s hrun halong agentId hmem capability
    have hkept : Kept s := by
      refine run_invariant_along (I := Kept) ?_ kept_empty halong hrun
      intro c _ t u ht hc hstep
      obtain rfl := Option.some.inj hstep
      exact ht.run hc
    exact hkept.hasCapability hmem capability
  · intro es halong hinj
    -- every row of every state on the way matches one of the registrations of the whole run
    have hmatches : ∀ fs, fs <+: es → ∀ s, run (step P) empty fs = some s → ∀ r ∈ s.rows,
        Matches P es r := by
      intro fs hfs s hrun
      refine run_invariant_along (I := fun s => ∀ r ∈ s.rows, Matches P es r) ?_ ?_
        (along_initial hfs halong) hrun
      · intro e he t u ht hQ hstep
        exact matches_step ht (hfs.subset he) hQ hstep
      · intro r hr
        exact absurd hr List.not_mem_nil
    intro fs gs hfs hgs s t hs ht i j a b ha hb hfingerprint
    exact sameGrant_of_matches hinj (hmatches fs hfs s hs) (hmatches gs hgs t ht) ha hb hfingerprint

/-! ## A revoked agent that is registered again, and a grant that is edited -/

/-- A digest that leaves the bytes as they are. -/
def whole : Hashing := ⟨KeySort.insertion, fun b => 0 :: b, fun _ => List.cons_ne_nil _ _⟩

/-- An agent with one capability. -/
def worker (revoked : Bool) : IdentityFields :=
  ⟨⟨lit "ollama", lit "a", [lit "fs"], lit "*", 0, 2⟩, lit "w", lit "worker", lit "cli", lit "now",
    revoked, []⟩

/-- Another model. -/
def otherModel : GrantColumns := ⟨lit "ollama", lit "b", lit "[\"fs\"]", lit "*", 0, 2⟩

/-- The worker is registered, revoked, and registered as revoked. -/
theorem grants_hold_worker : ∃ s, run (callStep whole) empty
      [.register (worker false), .revoke (lit "w"), .register (worker true)] = some s ∧
    lit "w" ∈ s.revokedIds ∧ s.hasCapability (lit "w") (lit "fs") = .ok false ∧
    ∃ t a, run (step whole) empty [.call (.register (worker false))] = some t ∧
        t.get (lit "w") = .ok a ∧ SameGrant a a := by
  refine ⟨_, rfl, by decide +kernel, ?_, ?_⟩
  · refine (grants_hold whole).1 [.register (worker false), .revoke (lit "w"),
      .register (worker true)] _ rfl ?_ (lit "w") (by decide +kernel) (lit "fs")
    refine ⟨?_, fun t _ => ⟨trivial, fun u _ => ⟨fun _ => Or.inl rfl, fun _ _ => trivial⟩⟩⟩
    intro hmem
    exact absurd hmem List.not_mem_nil
  · have hsome : (((Call.register (worker false)).run whole empty).get (lit "w")).toOption.isSome =
      true := by decide +kernel
    obtain ⟨a, ha⟩ := Option.isSome_iff_exists.mp hsome
    have hget := toOption_eq_some.mp ha
    refine ⟨_, a, rfl, hget, ?_⟩
    refine (grants_hold whole).2 [.call (.register (worker false))] ⟨Or.inl rfl, fun _ _ => trivial⟩
      ?_ _ _ (List.prefix_refl _) (List.prefix_refl _) _ _ rfl rfl _ _ _ _ hget hget rfl
    rintro x ⟨f, hf, hx⟩ y ⟨g, hg, hy⟩ -
    obtain rfl : f = worker false := by simpa using hf
    obtain rfl : g = worker false := by simpa using hg
    exact Except.ok.inj (hx.symm.trans hy)

/-- A revoked agent is registered again and has its capability; and an edit of the model leaves the
fingerprint. -/
theorem not_grants_hold :
    (∃ s, run (callStep whole) empty [.register (worker false), .revoke (lit "w"),
      .register (worker false)] = some s ∧
      lit "w" ∈ s.revokedIds ∧ s.hasCapability (lit "w") (lit "fs") = .ok true) ∧
    ∃ s t a b, run (step whole) empty [.call (.register (worker false))] = some s ∧
      run (step whole) empty [.call (.register (worker false)), .edit (lit "w") otherModel] =
      some t ∧
      Set.InjOn whole.truncated
        (payloads whole [.call (.register (worker false)), .edit (lit "w") otherModel]) ∧
      s.get (lit "w") = .ok a ∧ t.get (lit "w") = .ok b ∧ a.fingerprint = b.fingerprint ∧
          ¬ SameGrant a b := by
  constructor
  · exact ⟨_, rfl, by decide +kernel, by decide +kernel⟩
  · let s := (Call.register (worker false)).run whole empty
    let t := s.modify (lit "w") fun r => r.edited otherModel
    have hboth : (s.get (lit "w")).toOption.map AgentIdentity.model = some (lit "a") ∧
        (t.get (lit "w")).toOption.map AgentIdentity.model = some (lit "b") ∧
        (s.get (lit "w")).toOption.map AgentIdentity.fingerprint = (t.get (lit "w")).toOption.map
            AgentIdentity.fingerprint := by
      decide +kernel
    obtain ⟨hmodelA, hmodelB, hfingerprint⟩ := hboth
    obtain ⟨a, ha, hmodelA⟩ := Option.map_eq_some_iff.mp hmodelA
    obtain ⟨b, hb, hmodelB⟩ := Option.map_eq_some_iff.mp hmodelB
    refine ⟨s, t, a, b, rfl, rfl, ?_, toOption_eq_some.mp ha, toOption_eq_some.mp hb, ?_, ?_⟩
    · rintro x ⟨f, hf, hx⟩ y ⟨g, hg, hy⟩ -
      obtain rfl : f = worker false := by simpa using hf
      obtain rfl : g = worker false := by simpa using hg
      exact Except.ok.inj (hx.symm.trans hy)
    · rw [ha, hb] at hfingerprint
      exact Option.some.inj hfingerprint
    · intro hsame
      have hmodel := hsame.model
      rw [hmodelA, hmodelB] at hmodel
      exact absurd hmodel (by decide +kernel)

end AgentRegistry

end Agent
