import Msb.Ledger.Migration

/-!
# Calling the barrier again

After a migration the manifest holds the head that the second segment starts from, and a later call
finds the segment by it. A call that fails writes another manifest in its place, without a head.

* `run_activated` — what a migration leaves behind
* `body_present` — what a later call does where the segment is there
* `stays_recognisable` — which later calls leave the migration recognisable
-/

namespace Ledger

open Py

/-! ## Attempts -/

section

variable {α β : Type}

variable {x : Attempt α} {f : α → Attempt β} {p q : MigrationProgress}

theorem attempt_bind :
    (x >>= f) p = match x p with
      | .ok a q => f a q
      | .error e q => .error e q := by
  simp only [bind, EStateM.bind]
  cases x p <;> rfl

@[simp] theorem attempt_pure (a : α) (p : MigrationProgress) :
    (pure a : Attempt α) p = .ok a p := rfl

@[simp] theorem attempt_throw (e : Exc) (p : MigrationProgress) :
    (throw e : Attempt α) p = .error e p := rfl

@[simp] theorem attempt_get (p : MigrationProgress) :
    (get : Attempt MigrationProgress) p = .ok p p := rfl

@[simp] theorem attempt_modify (f : MigrationProgress → MigrationProgress)
    (p : MigrationProgress) : (modify f : Attempt Unit) p = .ok () (f p) := rfl

@[simp] theorem ask_ok (a : α) (p : MigrationProgress) : ask (.ok a) p = .ok a p := rfl

@[simp] theorem ask_error (e : Exc) (p : MigrationProgress) :
    (ask (.error e) : Attempt α) p = .error e p := rfl

@[simp] theorem unlessFails_none (p : MigrationProgress) : unlessFails none p = .ok () p := rfl

@[simp] theorem unlessFails_some (e : Exc) (p : MigrationProgress) :
    unlessFails (some e) p = .error e p := rfl

theorem attempt_bind_eq_ok {b : β} :
    (x >>= f) p = .ok b q ↔ ∃ a p', x p = .ok a p' ∧ f a p' = .ok b q := by
  rw [attempt_bind]
  cases x p with
  | ok a p' =>
    constructor
    · intro h
      exact ⟨a, p', rfl, h⟩
    · rintro ⟨a', p'', ha, h⟩
      obtain ⟨rfl, rfl⟩ := EStateM.Result.ok.inj ha
      exact h
  | error e p' => simp

theorem ask_eq_ok {x : Except Exc α} {a : α} :
    ask x p = .ok a q ↔ x = .ok a ∧ p = q := by
  cases x with
  | ok b => rw [ask_ok, EStateM.Result.ok.injEq, Except.ok.injEq]
  | error e => simp

theorem unlessFails_eq_ok {e : Option Exc} {u : Unit} :
    unlessFails e p = .ok u q ↔ e = none ∧ p = q := by
  cases e with
  | none => simp
  | some e => simp

theorem get_eq_ok {r : MigrationProgress} :
    (get : Attempt MigrationProgress) p = .ok r q ↔ p = r ∧ p = q := by
  rw [attempt_get, EStateM.Result.ok.injEq]

/-- An attempt that reads only: whatever comes of it, nothing is written. -/
def Quiet (x : Attempt α) : Prop :=
  ∀ p, (∃ a, x p = .ok a p) ∨ ∃ e, x p = .error e p

theorem quiet_pure (a : α) : Quiet (pure a) := fun _ => .inl ⟨a, rfl⟩

theorem quiet_throw (e : Exc) : Quiet (throw e : Attempt α) := fun _ => .inr ⟨e, rfl⟩

theorem quiet_get : Quiet (get : Attempt MigrationProgress) := fun p => .inl ⟨p, rfl⟩

theorem quiet_ask (x : Except Exc α) : Quiet (ask x) := by
  cases x with
  | ok a => exact quiet_pure a
  | error e => exact quiet_throw e

theorem quiet_unlessFails (e : Option Exc) : Quiet (unlessFails e) := by
  cases e with
  | none => exact quiet_pure ()
  | some e => exact quiet_throw e

theorem Quiet.bind (hx : Quiet x) (hf : ∀ a, Quiet (f a)) :
    Quiet (x >>= f) := by
  intro p
  rw [attempt_bind]
  rcases hx p with ⟨a, ha⟩ | ⟨e, he⟩
  · rw [ha]
    exact hf a p
  · rw [he]
    exact .inr ⟨e, rfl⟩

theorem Quiet.ite {c : Prop} [Decidable c] {y : Attempt α} (hx : Quiet x) (hy : Quiet y) :
    Quiet (if c then x else y) := by
  by_cases h : c
  · rwa [if_pos h]
  · rwa [if_neg h]

end

variable {w : MigrationWrite} {f : MigrationDisk → MigrationDisk}

/-- A write that goes through. -/
theorem write_ok {env : MigrationEnv} (h : env.failure w = none) (p : MigrationProgress) :
    write env w f p = .ok () { p with disk := f p.disk } := by
  unfold write
  rw [h]
  rfl

/-- A write that fails leaves everything as it is. -/
theorem write_error {env : MigrationEnv} {e : Exc} (h : env.failure w = some e)
    (p : MigrationProgress) :
    write env w f p = .error e p := by
  unfold write
  rw [h]
  rfl

theorem write_eq_ok {env : MigrationEnv} {p q : MigrationProgress} {u : Unit}
    (h : write env w f p = .ok u q) :
    q = { p with disk := f p.disk } := by
  cases hfail : env.failure w with
  | none =>
    rw [write_ok hfail] at h
    exact (EStateM.Result.ok.inj h).2.symm
  | some e =>
    rw [write_error hfail] at h
    cases h

namespace MigrationBarrier

variable {self : MigrationBarrier} {env : MigrationEnv}

/-! ## The segment that is there -/

/-- The segment is found again: the manifest names a head from which it verifies, and the chain says
that the second format is active. -/
def Recognises (env : MigrationEnv) (disk : MigrationDisk) (result : Items) : Prop :=
  ∃ verify manifest head, env.v2 = .present verify ∧ env.manifestRead = none ∧
    disk.manifest = some manifest ∧
    getItem manifest (lit "v1_head_hash") = some (.str head) ∧ verify head = .ok result ∧
    validResult result = true ∧ env.metaRead = none ∧
    disk.chainMeta.migrationState = some .v2Active

theorem quiet_existing (verify : Str → Except Exc Items) : Quiet (existing env verify) := by
  unfold existing
  refine (quiet_unlessFails _).bind fun _ => quiet_get.bind fun p => ?_
  dsimp only
  split
  · refine (quiet_ask _).bind fun result => ?_
    refine Quiet.ite (quiet_throw _) ((quiet_unlessFails _).bind fun _ => ?_)
    exact quiet_get.bind fun q => Quiet.ite (quiet_throw _) (quiet_pure _)
  · exact quiet_throw _

variable {disk : MigrationDisk} {p q : MigrationProgress} {r : MigrationResult} {t : Migrated}

/-- A segment that is found again. -/
theorem existing_of_recognises {result : Items} (h : Recognises env disk result) :
    ∃ verify manifest, env.v2 = .present verify ∧ disk.manifest = some manifest ∧
      ∀ b c, existing env verify ⟨disk, b, c⟩ = .ok (.alreadyActive result manifest)
      ⟨disk, b, c⟩ := by
  obtain ⟨verify, manifest, head, hpresent, hread, hmanifest, hhead, hverify, hvalid, hmeta,
    hstate⟩ := h
  refine ⟨verify, manifest, hpresent, hmanifest, fun b c => ?_⟩
  simp [existing, attempt_bind, hread, hmanifest, hhead, hverify, hvalid, hmeta, hstate]

/-- What `existing` has checked when it returns. -/
theorem recognises_of_existing {verify : Str → Except Exc Items} {p q : MigrationProgress}
    {r : MigrationResult} (hpresent : env.v2 = .present verify)
    (h : existing env verify p = .ok r q) : ∃ result, Recognises env p.disk result := by
  unfold existing at h
  obtain ⟨_, _, hread, h₁⟩ := attempt_bind_eq_ok.mp h
  obtain ⟨hreadable, rfl⟩ := unlessFails_eq_ok.mp hread
  obtain ⟨_, _, hget, h₂⟩ := attempt_bind_eq_ok.mp h₁
  obtain ⟨rfl, rfl⟩ := get_eq_ok.mp hget
  dsimp only at h₂
  cases hmanifest : p.disk.manifest with
  | none => simp [hmanifest, getItem] at h₂
  | some manifest =>
    rw [hmanifest, Option.getD_some] at h₂
    cases hhead : getItem manifest (lit "v1_head_hash") with
    | none => simp [hhead] at h₂
    | some v =>
      cases v with
      | str head =>
        simp only [hhead] at h₂
        obtain ⟨result, _, hverify, h₃⟩ := attempt_bind_eq_ok.mp h₂
        obtain ⟨hverified, rfl⟩ := ask_eq_ok.mp hverify
        by_cases hvalid : validResult result = true
        · rw [if_neg (by simp [hvalid])] at h₃
          obtain ⟨_, _, hmeta, h₄⟩ := attempt_bind_eq_ok.mp h₃
          obtain ⟨hreadMeta, rfl⟩ := unlessFails_eq_ok.mp hmeta
          obtain ⟨_, _, hget', h₅⟩ := attempt_bind_eq_ok.mp h₄
          obtain ⟨rfl, rfl⟩ := get_eq_ok.mp hget'
          by_cases hstate : p.disk.chainMeta.migrationState = some MigrationState.v2Active
          · refine ⟨result, verify, manifest, head, hpresent, hreadable, hmanifest, hhead, ?_,
              hvalid, hreadMeta, hstate⟩
            split at hverified
            · cases hverified
            · exact hverified
          · simp [hstate, attempt_bind] at h₅
        · rw [if_pos (by simp [hvalid])] at h₃
          simp [attempt_bind] at h₃
      | _ => simp [hhead] at h₂

/-! ## The migration -/

/-- The conditions of a migration: no segment, a valid v1 chain that is not empty, an export and an
outside check of its head, a second segment that is written and verified, and every write. -/
def Migrates (self : MigrationBarrier) (env : MigrationEnv) : Prop :=
  env.v2 = .absent ∧ strip env.migrationId ≠ [] ∧
    (∀ w ∈ [.begin, .started, .completeState, .completedAt, .active], env.failure w = none) ∧
    ∃ internal records last exported result first v2Result, env.internal = .ok internal ∧
      internal.isValid = true ∧ env.records = .ok records ∧ records.getLast? = some last ∧
      env.exportV1 = .ok exported ∧ isText exported.headHash last.recordHash = true ∧
      env.headVerifier = .ok (.dict result) ∧ getItem result (lit "valid") = some (.bool true) ∧
      (∀ head ∈ verifiedHeadHash result, head = last.recordHash) ∧
      (getItem result (lit "anchored_seq") = none ∨ getItem result (lit "anchored_seq") =
        some .none ∨
        ∃ seq, getItem result (lit "anchored_seq") = some seq ∧ eqInt seq last.seq = true) ∧
      env.openV2 = none ∧ env.appendV2 (self.v2Arguments env last exported) = .ok first ∧
      env.verifyV2 = .ok v2Result ∧ validResult v2Result = true

/-- What the last part of a migration leaves. -/
theorem complete_spec {last : AuditRecord} {headResult v2Result : Items} {first : FirstRecord}
    (h : self.complete env last headResult v2Result first p = .ok r q) :
    ∃ manifest, r = .activated manifest v2Result ∧ q.disk.manifest = some manifest ∧
      getItem manifest (lit "v1_head_hash") = some (.str last.recordHash) ∧
      q.disk.chainMeta.migrationState = some .v2Active := by
  unfold complete at h
  obtain ⟨_, p₁, hstate, h₁⟩ := attempt_bind_eq_ok.mp h
  obtain ⟨_, p₂, hat, h₂⟩ := attempt_bind_eq_ok.mp h₁
  obtain ⟨_, p₃, hbegan, h₃⟩ := attempt_bind_eq_ok.mp h₂
  obtain ⟨manifest, p₄, hmanifest, h₄⟩ := attempt_bind_eq_ok.mp h₃
  obtain ⟨_, p₅, hwrite, h₅⟩ := attempt_bind_eq_ok.mp hmanifest
  rw [attempt_modify] at hbegan
  obtain ⟨-, rfl⟩ := EStateM.Result.ok.inj hbegan
  obtain ⟨rfl, rfl⟩ := EStateM.Result.ok.inj h₅
  obtain ⟨rfl, rfl⟩ := EStateM.Result.ok.inj h₄
  rw [write_eq_ok hwrite, write_eq_ok hat, write_eq_ok hstate]
  exact ⟨_, rfl, rfl, rfl, rfl⟩

/-- What a migration leaves. -/
theorem activate_spec (h : self.activate env p = .ok r q) :
    ∃ manifest v2 head, r = .activated manifest v2 ∧ q.disk.manifest = some manifest ∧
      getItem manifest (lit "v1_head_hash") = some (.str head) ∧
      q.disk.chainMeta.migrationState = some .v2Active := by
  unfold activate at h
  obtain ⟨last, _, _, h₁⟩ := attempt_bind_eq_ok.mp h
  obtain ⟨_, _, _, h₂⟩ := attempt_bind_eq_ok.mp h₁
  obtain ⟨⟨exported, headResult⟩, _, _, h₃⟩ := attempt_bind_eq_ok.mp h₂
  obtain ⟨⟨first, v2Result⟩, _, _, h₄⟩ := attempt_bind_eq_ok.mp h₃
  obtain ⟨manifest, hr, hmanifest, hhead, hstate⟩ := complete_spec h₄
  exact ⟨manifest, v2Result, last.recordHash, hr, hmanifest, hhead, hstate⟩

/-- A migration whose conditions are met returns. -/
theorem activate_of_migrates (h : self.Migrates env) (p : MigrationProgress) :
    ∃ r q, self.activate env p = .ok r q := by
  obtain ⟨-, hid, hwrites, internal, records, last, exported, result, first, v2Result, hinternal,
    hvalid, hrecords, hlast, hexport, hexported, hverifier, hresult, hhead, hseq, hopen, hfirst,
    hv2, hv2Valid⟩ := h
  simp only [List.forall_mem_cons] at hwrites
  obtain ⟨hbegin, hstarted, hstate, hat, hactive, -⟩ := hwrites
  have hv1 : ∀ p, v1Head env p = .ok last p := by
    intro p
    simp [v1Head, attempt_bind, hinternal, hvalid, hrecords, hlast]
  have hbegun : ∀ p, ∃ q, self.begin env last p = .ok () q := by
    intro p
    simp only [begin, setMeta, writeManifest, attempt_bind, if_neg hid, write_ok hbegin,
      attempt_modify, write_ok hstarted, attempt_pure]
    exact ⟨_, rfl⟩
  have hgate : ∀ p, gate env last p = .ok (exported, result) p := by
    intro p
    have hsame : (verifiedHeadHash result).any (· ≠ last.recordHash) = false := by
      cases hfound : verifiedHeadHash result with
      | none => rfl
      | some head => simp [hhead head hfound]
    unfold gate
    simp only [attempt_bind, hexport, ask_ok, hexported, Bool.not_true, Bool.false_eq_true,
      if_false, hverifier, hresult, hsame]
    rcases hseq with hnone | hnull | ⟨seq, hseq, heq⟩
    · simp [hnone]
    · simp [hnull]
    · rw [hseq, Option.getD_some]
      cases seq <;> simp_all [eqInt]
  have hstart : ∀ p, ∃ q, self.startV2 env last exported p = .ok (first, v2Result) q := by
    intro p
    simp only [startV2, attempt_bind, hopen, unlessFails_none, attempt_modify, hfirst, ask_ok, hv2,
      hv2Valid, Bool.not_true, Bool.false_eq_true, if_false, attempt_pure]
    exact ⟨_, rfl⟩
  have hcomplete : ∀ p, ∃ r q, self.complete env last result v2Result first p = .ok r q := by
    intro p
    simp only [complete, setMeta, writeManifest, attempt_bind, write_ok hstate, write_ok hat,
      attempt_modify, write_ok hactive, attempt_pure]
    exact ⟨_, _, rfl⟩
  obtain ⟨p₁, hp₁⟩ := hbegun p
  obtain ⟨p₂, hp₂⟩ := hstart p₁
  obtain ⟨r, q, hq⟩ := hcomplete p₂
  refine ⟨r, q, ?_⟩
  simp only [activate, attempt_bind, hv1, hp₁, hgate, hp₂, hq]

/-! ## A call -/

/-- The call fails before it has changed anything: at a segment that is there, or before
`begin_migration`. -/
def Unbegun (env : MigrationEnv) : Prop :=
  env.v2 = .absent →
    (∀ internal records last, env.internal = .ok internal → internal.isValid = true →
      env.records = .ok records → records.getLast? ≠ some last) ∨
    strip env.migrationId = [] ∨ env.failure .begin ≠ none

/-- What the handler does to a call that had not begun. -/
theorem run_of_error {e : Exc} (hentry : env.entry = none)
    (h : self.body env ⟨disk, false, false⟩ = .error e ⟨disk, false, false⟩) :
    (∃ e', env.failure .blocked = some e' ∧ self.run env disk = (.error e', disk)) ∨
    (env.failure .blocked = none ∧ self.run env disk = (.error (migrationBlocked e.text),
      { disk with manifest := some (self.manifest env .blocked
        [(.str (lit "state"), .str (lit "MIGRATION_BLOCKED")),
          (.str (lit "reason"), .str e.text)]) })) := by
  unfold run
  simp only [hentry, h]
  cases hfail : env.failure .blocked with
  | some e' =>
    refine .inl ⟨e', rfl, ?_⟩
    simp [unwind, attempt_bind, writeManifest, write_error hfail]
  | none =>
    refine .inr ⟨rfl, ?_⟩
    simp [unwind, attempt_bind, writeManifest, write_ok hfail]

/-- A call whose body returns. -/
theorem run_of_ok (hentry : env.entry = none) (h : self.body env ⟨disk, false, false⟩ = .ok r p) :
    self.run env disk = (.ok r, p.disk) := by
  unfold run
  simp only [hentry, h]

/-- A call that returns is one whose body returns. -/
theorem body_of_run {disk' : MigrationDisk} (h : self.run env disk = (.ok r, disk')) :
    env.entry = none ∧ ∃ p, self.body env ⟨disk, false, false⟩ = .ok r p ∧ p.disk = disk' := by
  unfold run at h
  cases hentry : env.entry with
  | some e => simp [hentry] at h
  | none =>
    simp only [hentry] at h
    cases hbody : self.body env ⟨disk, false, false⟩ with
    | ok r' p =>
      rw [hbody] at h
      obtain ⟨hr, rfl⟩ := Prod.mk.inj h
      obtain rfl := Except.ok.inj hr
      exact ⟨rfl, p, rfl, rfl⟩
    | error e p =>
      rw [hbody] at h
      dsimp only at h
      cases hunwind : self.unwind env e p <;> simp [hunwind] at h

/-- At a segment that is there, the body returns exactly when the segment is found again. -/
theorem body_present (hpresent : env.v2 ≠ .absent) (disk : MigrationDisk) :
    (∃ result manifest, Recognises env disk result ∧ disk.manifest = some manifest ∧
      self.body env ⟨disk, false, false⟩
        = .ok (.alreadyActive result manifest) ⟨disk, false, false⟩) ∨
    (∀ result, ¬ Recognises env disk result) ∧
      ∃ e, self.body env ⟨disk, false, false⟩ = .error e ⟨disk, false, false⟩ := by
  cases hv2 : env.v2 with
  | absent => exact absurd hv2 hpresent
  | unstatable e =>
    refine .inr ⟨?_, e, by simp [body, hv2]⟩
    rintro result ⟨verify, _, _, hverify, -⟩
    rw [hv2] at hverify
    cases hverify
  | present verify =>
    by_cases hfound : ∃ result, Recognises env disk result
    · obtain ⟨result, hresult⟩ := hfound
      obtain ⟨verify', manifest, hverify, hmanifest, hreturns⟩ := existing_of_recognises hresult
      rw [hv2] at hverify
      obtain rfl := V2Found.present.inj hverify
      refine .inl ⟨result, manifest, hresult, hmanifest, ?_⟩
      rw [body, hv2]
      exact hreturns false false
    · refine .inr ⟨not_exists.mp hfound, ?_⟩
      rcases quiet_existing verify ⟨disk, false, false⟩ with ⟨r, hr⟩ | ⟨e, he⟩
      · exact absurd (recognises_of_existing hv2 hr) hfound
      · refine ⟨e, ?_⟩
        rw [body, hv2]
        exact he

theorem quiet_v1Head : Quiet (v1Head env) := by
  unfold v1Head
  refine (quiet_ask _).bind fun internal => Quiet.ite (quiet_throw _) ?_
  refine (quiet_ask _).bind fun records => ?_
  cases records.getLast? with
  | none => exact quiet_throw _
  | some last => exact quiet_pure last

/-- What `v1Head` has checked. -/
theorem v1Head_eq_ok {last : AuditRecord} (h : v1Head env p = .ok last q) :
    ∃ internal records, env.internal = .ok internal ∧
      internal.isValid = true ∧ env.records = .ok records ∧ records.getLast? = some last := by
  unfold v1Head at h
  obtain ⟨internal, _, hinternal, h₁⟩ := attempt_bind_eq_ok.mp h
  obtain ⟨hinternal', rfl⟩ := ask_eq_ok.mp hinternal
  by_cases hvalid : internal.isValid = true
  · rw [if_neg (by simp [hvalid])] at h₁
    obtain ⟨records, _, hrecords, h₂⟩ := attempt_bind_eq_ok.mp h₁
    obtain ⟨hrecords', rfl⟩ := ask_eq_ok.mp hrecords
    cases hlast : records.getLast? with
    | none => simp [hlast] at h₂
    | some found =>
      simp only [hlast, attempt_pure, EStateM.Result.ok.injEq] at h₂
      exact ⟨internal, records, hinternal', hvalid, hrecords', by rw [hlast, h₂.1]⟩
  · rw [if_pos (by simp [hvalid])] at h₁
    simp [attempt_bind] at h₁

/-- Without a segment, a call that fails before `begin_migration` has changed nothing. -/
theorem body_unbegun (habsent : env.v2 = .absent) (h : Unbegun env) (disk : MigrationDisk) :
    ∃ e, self.body env ⟨disk, false, false⟩ = .error e ⟨disk, false, false⟩ := by
  have hbody : self.body env ⟨disk, false, false⟩ = self.activate env ⟨disk, false, false⟩ := by
    rw [body, habsent]
  rw [hbody, activate, attempt_bind]
  rcases quiet_v1Head ⟨disk, false, false⟩ with ⟨last, hlast⟩ | ⟨e, he⟩
  · obtain ⟨internal, records, hinternal, hvalid, hrecords, hfound⟩ := v1Head_eq_ok hlast
    have hbegin : ∃ e, self.begin env last ⟨disk, false, false⟩
        = .error e ⟨disk, false, false⟩ := by
      rcases h habsent with hnone | hblank | hfail
      · exact absurd hfound (hnone internal records last hinternal hvalid hrecords)
      · exact ⟨_, by simp [begin, attempt_bind, hblank]; rfl⟩
      · obtain ⟨e, he⟩ := Option.ne_none_iff_exists'.mp hfail
        by_cases hblank : strip env.migrationId = []
        · exact ⟨_, by simp [begin, attempt_bind, hblank]; rfl⟩
        · exact ⟨e, by simp [begin, attempt_bind, hblank, setMeta, write_error he]⟩
    obtain ⟨e, he⟩ := hbegin
    refine ⟨e, ?_⟩
    rw [hlast]
    simp only [attempt_bind, he]
  · rw [he]
    exact ⟨e, rfl⟩

/-! ## Every later call -/

/-- The disk and the head that the last migration recorded. -/
abbrev Migrated := MigrationDisk × Str

/-- A later call. A new migration records its own head. -/
def rerun (self : MigrationBarrier) (t : Migrated) (env : MigrationEnv) : Option Migrated :=
  some (match self.run env t.1 with
    | (.ok (.activated manifest _), disk) =>
      (disk, match getItem manifest (lit "v1_head_hash") with
        | some (.str head) => head
        | _ => t.2)
    | (_, disk) => (disk, t.2))

/-- The migration is recognisable: the manifest holds the head that was recorded, and whenever the
segment verifies from it, and manifest and chain can be read, `run` returns `already_active`. -/
def Recognisable (self : MigrationBarrier) (t : Migrated) : Prop :=
  (∃ manifest, t.1.manifest = some manifest ∧
    getItem manifest (lit "v1_head_hash") = some (.str t.2)) ∧
  ∀ env verify result, env.entry = none → env.v2 = .present verify → verify t.2 = .ok result →
    validResult result = true → env.manifestRead = none → env.metaRead = none →
    ∃ manifest, self.run env t.1 = (.ok (.alreadyActive result manifest), t.1)

/-- The call leaves the manifest to later ones: it does not come to the guarded part; or it finds
the segment again; or it migrates anew; or it fails before it has changed anything, and the manifest
of the failure cannot be written. -/
def Undisturbed (self : MigrationBarrier) (t : Migrated) (env : MigrationEnv) : Prop :=
  env.entry ≠ none ∨ (∃ result, Recognises env t.1 result) ∨ self.Migrates env ∨
    env.failure .blocked ≠ none ∧ Unbegun env

/-- What makes a migration recognisable. -/
structure Recorded (t : Migrated) : Prop where
  head : ∃ manifest, t.1.manifest = some manifest ∧
    getItem manifest (lit "v1_head_hash") = some (.str t.2)
  active : t.1.chainMeta.migrationState = some .v2Active

/-- A call that finds the segment again returns, and leaves everything as it is. -/
theorem run_of_recognises {disk : MigrationDisk} {result : Items} (hentry : env.entry = none)
    (h : Recognises env disk result) :
    ∃ manifest, self.run env disk = (.ok (.alreadyActive result manifest), disk) := by
  obtain ⟨verify, manifest, hpresent, -, hreturns⟩ := existing_of_recognises h
  have hbody : self.body env ⟨disk, false, false⟩
      = .ok (.alreadyActive result manifest) ⟨disk, false, false⟩ := by
    rw [body, hpresent]
    exact hreturns false false
  exact ⟨manifest, run_of_ok hentry hbody⟩

/-- A call at which the segment verifies and everything can be read. -/
def verifies : MigrationEnv where
  entry := none
  migrationId := lit "id"
  now _ := []
  failure _ := none
  v2 := .present fun _ => .ok [(.str (lit "valid"), .bool true)]
  manifestRead := none
  metaRead := none
  internal := .ok (.valid 0)
  records := .ok []
  exportV1 := .ok ⟨.none, .none⟩
  headVerifier := .ok .none
  openV2 := none
  appendV2 _ := .ok ⟨.none, .none⟩
  verifyV2 := .ok []
  repr _ := []

theorem recognisable_iff : self.Recognisable t ↔ Recorded t := by
  constructor
  · rintro ⟨hhead, hfinds⟩
    refine ⟨hhead, ?_⟩
    obtain ⟨manifest, hrun⟩ := hfinds verifies _ _ rfl rfl rfl rfl rfl rfl
    obtain ⟨-, p, hbody, -⟩ := body_of_run hrun
    obtain ⟨result, hrecognises⟩ := @recognises_of_existing verifies _ _ _ _ rfl hbody
    obtain ⟨_, _, _, _, _, _, _, _, _, _, hstate⟩ := hrecognises
    exact hstate
  · rintro ⟨⟨manifest, hmanifest, hhead⟩, hactive⟩
    refine ⟨⟨manifest, hmanifest, hhead⟩, ?_⟩
    intro env verify result hentry hv2 hverify hvalid hread hmeta
    exact run_of_recognises hentry
      ⟨verify, manifest, t.2, hv2, hread, hmanifest, hhead, hverify, hvalid, hmeta, hactive⟩

/-- What a migration leaves behind. -/
theorem run_activated {disk' : MigrationDisk} {manifest v2 : Items}
    (h : self.run env disk = (.ok (.activated manifest v2), disk')) :
    ∃ head, getItem manifest (lit "v1_head_hash") = some (.str head) ∧ Recorded (disk', head) := by
  obtain ⟨-, p, hbody, rfl⟩ := body_of_run h
  by_cases habsent : env.v2 = .absent
  · rw [body, habsent] at hbody
    obtain ⟨manifest', v2', head, hr, hmanifest, hhead, hstate⟩ := activate_spec hbody
    obtain ⟨rfl, rfl⟩ := MigrationResult.activated.inj hr
    exact ⟨head, hhead, ⟨_, hmanifest, hhead⟩, hstate⟩
  · rcases body_present habsent disk with ⟨_, _, _, _, hreturns⟩ | ⟨-, e, he⟩
    · rw [hreturns] at hbody
      cases (EStateM.Result.ok.inj hbody).1
    · rw [he] at hbody
      cases hbody

/-- A call that leaves everything as it is, unless it returns. -/
theorem rerun_of_same {e : Exc} (h : self.run env t.1 = (.error e, t.1)) :
    self.rerun t env = some t := by
  unfold rerun
  rw [h]

/-- The migration stays recorded. -/
theorem Recorded.rerun {u : Migrated} (ht : Recorded t) (hundisturbed : self.Undisturbed t env)
    (h : self.rerun t env = some u) : Recorded u := by
  by_cases hentry : env.entry = none
  · rcases hundisturbed with hno | ⟨result, hresult⟩ | hmigrates | ⟨hfail, hunbegun⟩
    · exact absurd hentry hno
    · obtain ⟨manifest, hrun⟩ := @run_of_recognises self env t.1 result hentry hresult
      simp only [MigrationBarrier.rerun, hrun, Option.some.injEq] at h
      rwa [← h]
    · obtain ⟨r, q, hq⟩ := activate_of_migrates hmigrates ⟨t.1, false, false⟩
      obtain ⟨manifest, v2, head, rfl, hmanifest, hhead, hstate⟩ := activate_spec hq
      have hbody : self.body env ⟨t.1, false, false⟩ = .ok (.activated manifest v2) q := by
        rw [body, hmigrates.1]
        exact hq
      simp only [MigrationBarrier.rerun, run_of_ok hentry hbody, hhead, Option.some.injEq] at h
      rw [← h]
      exact ⟨⟨manifest, hmanifest, hhead⟩, hstate⟩
    · have hbody : (∃ r p, self.body env ⟨t.1, false, false⟩ = .ok r p ∧ p.disk = t.1 ∧
          ∃ result manifest, r = .alreadyActive result manifest) ∨
          ∃ e, self.body env ⟨t.1, false, false⟩ = .error e ⟨t.1, false, false⟩ := by
        by_cases habsent : env.v2 = .absent
        · exact .inr (body_unbegun habsent hunbegun t.1)
        · rcases body_present habsent t.1 with
            ⟨result, manifest, -, -, hreturns⟩ | ⟨-, he⟩
          · exact .inl ⟨_, _, hreturns, rfl, result, manifest, rfl⟩
          · exact .inr he
      rcases hbody with ⟨r, p, hp, hdisk, result, manifest, rfl⟩ | ⟨e, he⟩
      · simp only [MigrationBarrier.rerun, run_of_ok hentry hp, hdisk, Option.some.injEq] at h
        rwa [← h]
      · rcases run_of_error hentry he with ⟨e', -, hrun⟩ | ⟨hnone, -⟩
        · rw [rerun_of_same hrun] at h
          rwa [← Option.some.inj h]
        · exact absurd hnone hfail
  · obtain ⟨e, he⟩ := Option.ne_none_iff_exists'.mp hentry
    have hrun : self.run env t.1 = (.error e, t.1) := by
      unfold run
      rw [he]
    rw [rerun_of_same hrun] at h
    rwa [← Option.some.inj h]

/-- The manifest of a failure holds no head. -/
theorem not_recorded_blocked {head reason : Str} :
    ¬ Recorded ({ disk with manifest := some (self.manifest env .blocked
      [(.str (lit "state"), .str (lit "MIGRATION_BLOCKED")),
        (.str (lit "reason"), .str reason)]) }, head) := by
  rintro ⟨⟨manifest, hmanifest, hhead⟩, -⟩
  obtain rfl := Option.some.inj hmanifest
  have hnone : getItem (self.manifest env .blocked
      [(.str (lit "state"), .str (lit "MIGRATION_BLOCKED")),
        (.str (lit "reason"), .str reason)]) (lit "v1_head_hash") = none := rfl
  rw [hnone] at hhead
  cases hhead

/-- Where the segment is there, a call that is not undisturbed makes the migration unrecognisable.
-/
theorem Recorded.rerun_iff (ht : Recorded t) (hpresent : env.v2 ≠ .absent) :
    ∃ u, self.rerun t env = some u ∧ (Recorded u ↔ self.Undisturbed t env) := by
  obtain ⟨u, hu⟩ : ∃ u, self.rerun t env = some u := ⟨_, rfl⟩
  refine ⟨u, hu, fun hrecorded => ?_, fun h => ht.rerun h hu⟩
  by_contra hdisturbed
  simp only [Undisturbed, not_or, not_not, not_and] at hdisturbed
  obtain ⟨hentry, hnot, -, hwrite⟩ := hdisturbed
  rcases @body_present self env hpresent t.1 with ⟨result, _, hresult, -⟩ | ⟨-, e, he⟩
  · exact hnot ⟨result, hresult⟩
  · rcases run_of_error hentry he with ⟨e', hfail, -⟩ | ⟨-, hrun⟩
    · refine hwrite (by simp [hfail]) fun habsent => ?_
      exact absurd habsent hpresent
    · simp only [MigrationBarrier.rerun, hrun, Option.some.injEq] at hu
      rw [← hu] at hrecorded
      exact not_recorded_blocked hrecorded

/-- **Which later calls leave the migration recognisable.** Whenever all of them are undisturbed, it
is recognisable in every state; and where the segment is there at each of them, only then. -/
theorem stays_recognisable {disk disk' : MigrationDisk} {manifest v2 : Items}
    (h : self.run env disk = (.ok (.activated manifest v2), disk')) :
    ∃ head, getItem manifest (lit "v1_head_hash") = some (.str head) ∧
      (∀ es t, Machine.Along self.rerun self.Undisturbed (disk', head) es →
        Machine.run self.rerun (disk', head) es = some t → self.Recognisable t) ∧
      ∀ es : List MigrationEnv, (∀ e ∈ es, e.v2 ≠ .absent) →
        ((∀ fs t, fs <+: es → Machine.run self.rerun (disk', head) fs = some t →
          self.Recognisable t) ↔ Machine.Along self.rerun self.Undisturbed (disk', head) es) := by
  obtain ⟨head, hhead, hrecorded⟩ := run_activated h
  refine ⟨head, hhead, fun es t halong hrun => ?_, fun es hpresent => ?_⟩
  · refine recognisable_iff.mpr
      (Machine.run_invariant_along (I := Recorded) ?_ hrecorded halong hrun)
    intro e _ t u ht hundisturbed hu
    exact ht.rerun hundisturbed hu
  · refine Machine.along_iff_reached (I := fun _ => True) (fun e he t _ ht => ?_) trivial
      (recognisable_iff.mpr hrecorded)
    obtain ⟨u, hu, hiff⟩ := (recognisable_iff.mp ht).rerun_iff (hpresent e he)
    exact ⟨u, hu, trivial, recognisable_iff.trans hiff⟩

/-! ## A segment that cannot be read once -/

def plainBarrier : MigrationBarrier := ⟨lit "op", lit "export.json", lit "v2.jsonl"⟩

/-- A call at which everything works, on a chain of one record. -/
def migrates : MigrationEnv :=
  { verifies with
    v2 := .absent
    records := .ok [⟨1, lit "svc", lit "evt", .none, [], genesisHash, lit "head"⟩]
    exportV1 := .ok ⟨.str (lit "head"), .none⟩
    headVerifier := .ok (.dict [(.str (lit "valid"), .bool true)])
    verifyV2 := .ok [(.str (lit "valid"), .bool true)] }

/-- A call at which the segment cannot be read. -/
def unreadable : MigrationEnv :=
  { verifies with v2 := .present fun _ => .error ⟨.unreadable, lit "input/output error"⟩ }

/-- A migration, and what holds of the calls after it. -/
theorem stays_recognisable_plain : ∃ disk' manifest v2,
    plainBarrier.run migrates ⟨none, {}⟩ = (.ok (.activated manifest v2), disk') ∧
    ∃ head, getItem manifest (lit "v1_head_hash") = some (.str head) ∧
      (∀ es t, Machine.Along plainBarrier.rerun plainBarrier.Undisturbed (disk', head) es →
        Machine.run plainBarrier.rerun (disk', head) es = some t → plainBarrier.Recognisable t) ∧
      ∀ es : List MigrationEnv, (∀ e ∈ es, e.v2 ≠ .absent) →
        ((∀ fs t, fs <+: es → Machine.run plainBarrier.rerun (disk', head) fs = some t →
          plainBarrier.Recognisable t) ↔
            Machine.Along plainBarrier.rerun plainBarrier.Undisturbed (disk', head) es) :=
  ⟨_, _, _, rfl, @stays_recognisable plainBarrier migrates ⟨none, {}⟩ _ _ _ rfl⟩

/-- After one call that could not read the segment, the migration is not recognised again. -/
theorem unreadable_forgets : ¬ ∀ (self : MigrationBarrier) (env : MigrationEnv)
    (disk disk' : MigrationDisk) (manifest v2 : Items) (head : Str),
    self.run env disk = (.ok (.activated manifest v2), disk') →
    getItem manifest (lit "v1_head_hash") = some (.str head) →
    ∀ (es : List MigrationEnv) (t : Migrated), (∀ e ∈ es, e.v2 ≠ .absent) →
      Machine.run self.rerun (disk', head) es = some t → self.Recognisable t := by
  intro h
  have hforgotten := recognisable_iff.mp (h plainBarrier migrates ⟨none, {}⟩ _ _ _ (lit "head") rfl
    rfl [unreadable] _ (by simp [unreadable]) rfl)
  obtain ⟨manifest, hmanifest, hhead⟩ := hforgotten.head
  obtain rfl := Option.some.inj hmanifest
  have hnone : getItem (plainBarrier.manifest unreadable .blocked
      [(.str (lit "state"), .str (lit "MIGRATION_BLOCKED")),
        (.str (lit "reason"), .str (lit "existing v2 segment is unreadable: "
          ++ lit "input/output error"))]) (lit "v1_head_hash") = none := rfl
  exact absurd (hnone.symm.trans hhead) (by simp)

end MigrationBarrier

end Ledger
