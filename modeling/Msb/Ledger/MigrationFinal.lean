import Msb.Infra.Triple
import Msb.Ledger.MigrationRerun

/-!
# One migration

`MigrationBarrier.run` is called again and again on one chain, with directories and segments of the
caller's choice. It looks for a segment at its own path only, and `begin_migration` overwrites the
state of the chain: a call that finds no segment takes a chain that is `V2_ACTIVE` or
`MIGRATION_BLOCKED` through a second migration, or back to `V1_ACTIVE`.

* `run_of_unbegun`, `run_of_begun` — what a call does to the state of the chain
* `migrates_once_iff` — when a chain that was migrated stays so
-/

namespace Ledger

open Py Stateful

/-! ## Calls on one chain -/

/-- A call of `run`. Each has a barrier of its own. -/
structure MigrationCall where
  barrier : MigrationBarrier
  env : MigrationEnv

/-- What outlives the calls: `chain_meta`, and the manifest in each export directory. `begun` is the
state of the chain at each `begin_migration`, `segments` the paths at which a second segment was
opened. -/
structure MigrationHistory where
  chainMeta : ChainMeta
  manifests : Str → Option Items
  begun : List MigrationState
  segments : List Str

namespace MigrationHistory

def init (chainMeta : ChainMeta) (manifests : Str → Option Items) : MigrationHistory :=
  ⟨chainMeta, manifests, [], []⟩

/-- The disk as a call finds it. -/
def disk (s : MigrationHistory) (c : MigrationCall) : MigrationDisk :=
  ⟨s.manifests c.barrier.exportManifestPath, s.chainMeta⟩

end MigrationHistory

namespace MigrationBarrier

/-- How far the guarded part of a call comes. -/
def guarded (self : MigrationBarrier) (env : MigrationEnv) (disk : MigrationDisk) :
    MigrationProgress :=
  match env.entry with
  | some _ => ⟨disk, false, false⟩
  | none =>
    match self.body env ⟨disk, false, false⟩ with
    | .ok _ p => p
    | .error _ p => p

end MigrationBarrier

namespace MigrationCall

open MigrationBarrier

variable (c : MigrationCall)

/-- The call comes to `begin_migration`, and it goes through: there is no segment at its path, the
chain is valid and not empty, and the state can be written. -/
def Begins : Prop := c.env.entry = none ∧ ¬Unbegun c.env

/-- The state of the chain that the call overwrites, if it does. -/
def begun (s : MigrationHistory) : List MigrationState :=
  let p := c.barrier.guarded c.env (s.disk c)
  if p.began || p.v2Started then [s.chainMeta.migration] else []

/-- The segment that the call opens. -/
def opened (s : MigrationHistory) : List Str :=
  if (c.barrier.guarded c.env (s.disk c)).v2Started then [c.barrier.v2Path] else []

/-- The next call on the chain. The calls take turns, as `run` holds a lock of the chain. -/
def next (s : MigrationHistory) : Option MigrationHistory :=
  let after := (c.barrier.run c.env (s.disk c)).2
  some
    { chainMeta := after.chainMeta
      manifests := Function.update s.manifests c.barrier.exportManifestPath after.manifest
      begun := s.begun ++ c.begun s
      segments := s.segments ++ c.opened s }

end MigrationCall

/-! ## What a call does to the state of the chain -/

theorem Quiet.keeps {α : Type} {I : MigrationProgress → Prop} {x : Attempt α} (hx : Quiet x) :
    Keeps I x := by
  intro p hp
  rcases hx p with ⟨a, ha⟩ | ⟨e, he⟩
  · rw [ha]
    exact hp
  · rw [he]
    exact hp

namespace MigrationBarrier

variable {self : MigrationBarrier} {env : MigrationEnv} {last : AuditRecord}

theorem write_keeps {I : MigrationProgress → Prop} {w : MigrationWrite}
    {f : MigrationDisk → MigrationDisk}
    (h : ∀ p, I p → I { p with disk := f p.disk }) : Keeps I (write env w f) := by
  intro p hp
  cases hfail : env.failure w with
  | some e =>
    rw [write_error hfail]
    exact hp
  | none =>
    rw [write_ok hfail]
    exact h p hp

theorem writeManifest_keeps {I : MigrationProgress → Prop} {w : MigrationWrite} {values : Items}
    (h : ∀ p manifest, I p → I { p with disk := { p.disk with manifest := manifest } }) :
    Keeps I (self.writeManifest env w values) :=
  (write_keeps fun p hp => h p _ hp).bind fun _ => Triple.pure fun _ hp => hp

theorem quiet_gate : Quiet (gate env last) := by
  unfold gate
  refine (quiet_ask _).bind fun exported => Quiet.ite (quiet_throw _)
    ((quiet_ask _).bind fun headResult => ?_)
  cases headResult with
  | dict result =>
    dsimp only
    split
    · refine Quiet.ite (quiet_throw _) ?_
      split
      · exact quiet_pure _
      · exact Quiet.ite (quiet_throw _) (quiet_pure _)
    · exact quiet_throw _
  | _ => exact quiet_throw _

/-! ### The guarded part -/

/-- Nothing was written. -/
def Untouched (disk : MigrationDisk) (p : MigrationProgress) : Prop := p = ⟨disk, false, false⟩

/-- The chain is migrating, and no segment was opened. -/
def Begun (p : MigrationProgress) : Prop := p.began = true ∧ p.v2Started = false ∧
    p.disk.chainMeta.migration = .migrating

/-- The segment was opened. -/
def Started (p : MigrationProgress) : Prop :=
  p.v2Started = true ∧
    (p.disk.chainMeta.migration = .migrating ∨ p.disk.chainMeta.migration = .v2Active)

/-- A segment is opened after `begin_migration`. -/
theorem startV2_triple {exported : Exported} : Triple Begun (self.startV2 env last exported)
    (fun _ => Started) fun _ p => Begun p ∨ Started p := by
  unfold startV2
  refine Triple.bind ((quiet_unlessFails _).keeps.triple fun _ _ hp => .inl hp) fun _ => ?_
  refine Triple.bind (Q := fun _ => Started) (Triple.modify fun p hp => ⟨rfl, .inl hp.2.2⟩)
    fun _ => ?_
  have hrest : Quiet (do
      let first ← ask (env.appendV2 (self.v2Arguments env last exported))
      let v2Result ← ask env.verifyV2
      if !validResult v2Result then
        throw (migrationBlocked (lit "v2 verification failed: " ++ env.repr (.dict v2Result)))
      pure (first, v2Result) : Attempt (FirstRecord × Items)) :=
    (quiet_ask _).bind fun _ => (quiet_ask _).bind fun _ => Quiet.ite (quiet_throw _) (quiet_pure _)
  exact hrest.keeps.triple fun _ _ hp => .inr hp

theorem complete_keeps {headResult v2Result : Items} {first : FirstRecord} :
    Keeps Started (self.complete env last headResult v2Result first) := by
  unfold complete
  refine (write_keeps fun p hp => ⟨hp.1, .inr rfl⟩).bind fun _ => ?_
  refine (write_keeps fun p hp => ⟨hp.1, hp.2⟩).bind fun _ => ?_
  refine Keeps.bind (Triple.modify fun p hp => ⟨hp.1, hp.2⟩) fun _ => ?_
  exact (writeManifest_keeps fun p _ hp => ⟨hp.1, hp.2⟩).bind fun _ => Triple.pure fun _ hp => hp

variable {disk : MigrationDisk}

/-- `begin_migration` goes through where the id is no blank text and the state can be written. -/
theorem begin_triple (hid : strip env.migrationId ≠ []) (hwrite : env.failure .begin = none) :
    Triple (Untouched disk) (self.begin env last) (fun _ => Begun) fun _ => Begun := by
  unfold begin
  simp only [if_neg hid]
  have hstate : Triple (Untouched disk) (setMeta env .begin fun m =>
      { m with
        migrationState := some .migrating
        migrationId := some env.migrationId
        migrationStartedAt := some (env.now .begin) })
      (fun _ p => p.v2Started = false ∧ p.disk.chainMeta.migration = .migrating) fun _ =>
          Begun := by
    rintro p rfl
    rw [setMeta, write_ok hwrite]
    exact ⟨rfl, rfl⟩
  refine hstate.bind fun _ => Triple.bind (Q := fun _ => Begun)
    (Triple.modify fun p hp => ⟨rfl, hp.1, hp.2⟩) fun _ => ?_
  exact (writeManifest_keeps fun p _ hp => ⟨hp.1, hp.2⟩).bind fun _ => Triple.pure fun _ hp => hp

/-- **What the guarded part of a call that begins leaves.** -/
theorem activate_begun (hbegins : ¬Unbegun env) :
    Triple (Untouched disk) (self.activate env) (fun _ => Started) fun _ p => Begun p ∨
    Started p := by
  simp only [Unbegun, not_forall, not_or, not_not] at hbegins
  obtain ⟨-, ⟨internal, records, last, hinternal, hvalid, hrecords, hlast⟩, hid, hwrite⟩ := hbegins
  have hhead : v1Head env ⟨disk, false, false⟩ = .ok last ⟨disk, false, false⟩ := by
    simp [v1Head, attempt_bind, hinternal, hvalid, hrecords, hlast]
  unfold activate
  refine Triple.bind (Q := fun _ => Untouched disk) ?_ fun last => ?_
  · rintro p rfl
    rw [hhead]
    rfl
  refine Triple.bind ((begin_triple hid hwrite).mono (fun _ hp => hp) (fun _ _ hp => hp)
    fun _ _ hp => .inl hp) fun _ => ?_
  refine Triple.bind (quiet_gate.keeps.triple fun _ _ hp => .inl hp) fun _ => ?_
  refine Triple.bind startV2_triple fun _ => ?_
  exact complete_keeps.triple fun _ _ hp => .inr hp

/-- A call that does not begin has written nothing. -/
theorem body_of_unbegun (h : Unbegun env) :
    (∃ r, self.body env ⟨disk, false, false⟩ = .ok r ⟨disk, false, false⟩) ∨
      ∃ e, self.body env ⟨disk, false, false⟩ = .error e ⟨disk, false, false⟩ := by
  by_cases habsent : env.v2 = .absent
  · exact .inr (body_unbegun habsent h disk)
  · rcases body_present habsent disk with ⟨result, manifest, -, -, hreturns⟩ | ⟨-, he⟩
    · exact .inl ⟨_, hreturns⟩
    · exact .inr he

/-- The chain does not take records of the first version. -/
def Closed (p : MigrationProgress) : Prop := p.disk.chainMeta.migration ≠ .v1Active

/-- The handler blocks a migration that has opened a segment: the chain does not go back. -/
theorem unwind_started {e : Exc} :
    Triple Started (self.unwind env e) (fun _ => Closed) fun _ => Closed := by
  have hclosed : ∀ p, Started p → Closed p := by
    rintro p ⟨-, hstate | hstate⟩ <;> simp [Closed, hstate]
  have hkeeps : ∀ {w : MigrationWrite} {f : ChainMeta → ChainMeta},
      (∀ m : ChainMeta, m.migration ≠ .v1Active → (f m).migration ≠ .v1Active) →
      Keeps Closed (setMeta env w f) := fun hf =>
    write_keeps fun p hp => hf _ hp
  have hmanifest : ∀ {values : Items}, Keeps Closed (do
      let _ ← self.writeManifest env .blocked values : Attempt Unit) :=
    (writeManifest_keeps fun p _ hp => hp).bind fun _ => Triple.pure fun _ hp => hp
  unfold unwind
  refine Triple.bind Triple.get fun p => Triple.ite (fun _ => ?_) fun _ => ?_
  · refine Triple.bind Triple.get fun q => Triple.ite (fun _ => ?_) fun hnot => ?_
    · have hblock : Keeps Closed (do
          setMeta env .blockState fun m => { m with migrationState := some .migrationBlocked }
          setMeta env .blockReason fun m => { m with migrationBlockedReason := some e.text }
          setMeta env .blockedAt fun m => { m with migrationBlockedAt := some (env.now .blockedAt) }
          let _ ← self.writeManifest env .blocked
            [(.str (lit "state"), .str (lit "MIGRATION_BLOCKED")),
              (.str (lit "reason"), .str e.text)] : Attempt Unit) := by
        refine (hkeeps fun m _ => ?_).bind fun _ => Keeps.bind (hkeeps ?_) fun _ =>
          Keeps.bind (hkeeps ?_) fun _ => hmanifest
        · exact MigrationState.noConfusion
        · exact fun _ hm => hm
        · exact fun _ hm => hm
      exact hblock.mono (fun s hs => hclosed s hs.2.2) (fun _ _ hs => hs) fun _ _ hs => hs
    · -- the segment is open
      rintro s ⟨rfl, rfl, hs, -⟩
      exact absurd hs hnot
  · exact hmanifest.mono (fun s hs => hclosed s hs.2) (fun _ _ hs => hs) fun _ _ hs => hs

/-! ### A call -/

/-- A call that does not begin leaves the state of the chain. -/
theorem run_of_unbegun (h : env.entry ≠ none ∨ Unbegun env) :
    self.guarded env disk = ⟨disk, false, false⟩ ∧ (self.run env disk).2.chainMeta =
    disk.chainMeta := by
  unfold guarded
  cases hentry : env.entry with
  | some e =>
    unfold run
    rw [hentry]
    exact ⟨rfl, rfl⟩
  | none =>
    have hbody : (∃ r, self.body env ⟨disk, false, false⟩ = .ok r ⟨disk, false, false⟩) ∨
        ∃ e, self.body env ⟨disk, false, false⟩ = .error e ⟨disk, false, false⟩ :=
      body_of_unbegun (h.resolve_left fun hne => hne hentry)
    rcases hbody with ⟨r, hr⟩ | ⟨e, he⟩
    · rw [run_of_ok hentry hr, hr]
      exact ⟨rfl, rfl⟩
    · rcases run_of_error hentry he with ⟨e', -, hrun⟩ | ⟨-, hrun⟩ <;>
      · rw [hrun, he]
        exact ⟨rfl, rfl⟩

/-- **What a call that begins leaves**: where it has opened a segment, the chain is closed. -/
theorem run_of_begun {disk : MigrationDisk} (hentry : env.entry = none) (h : ¬Unbegun env) :
    ((self.guarded env disk).began || (self.guarded env disk).v2Started) = true ∧
      ((self.guarded env disk).v2Started = true → (self.run env disk).2.chainMeta.migration ≠
        .v1Active) := by
  have hbody : self.body env ⟨disk, false, false⟩ = self.activate env ⟨disk, false, false⟩ := by
    have habsent : env.v2 = .absent := by
      by_contra hpresent
      exact h fun habsent => absurd habsent hpresent
    rw [body, habsent]
  have hactivate : Triple (· = ⟨disk, false, false⟩) (self.activate env) (fun _ => Started)
      fun _ p => Begun p ∨ Started p :=
    activate_begun h
  unfold guarded run
  rw [hentry, hbody]
  rcases hactivate.cases with ⟨r, p, hp, hstarted⟩ | ⟨e, p, hp, hbegun⟩
  · rw [hp]
    refine ⟨by simp [hstarted.1], fun _ => ?_⟩
    rcases hstarted.2 with hstate | hstate <;> simp [hstate]
  · rw [hp]
    rcases hbegun with ⟨hbegan, hopen, -⟩ | hstarted
    · exact ⟨by simp [hbegan], fun htrue => absurd (hopen.symm.trans htrue) Bool.false_ne_true⟩
    · refine ⟨by simp [hstarted.1], fun _ => ?_⟩
      have hunwind : Triple (· = p) (self.unwind env e) (fun _ => Closed) fun _ => Closed :=
        unwind_started.mono (by rintro _ rfl; exact hstarted) (fun _ _ h => h) fun _ _ h => h
      rcases hunwind.cases with ⟨u, q, hq, hclosed⟩ | ⟨e', q, hq, hclosed⟩ <;>
      · simp only [hq]
        exact hclosed

end MigrationBarrier

/-! ## Every sequence of calls -/

namespace MigrationHistory

/-- The chain was migrated, or a migration was given up with a segment open. -/
def Final (s : MigrationHistory) : Prop := s.chainMeta.migration = .v2Active ∨
    s.chainMeta.migration = .migrationBlocked

/-- Only a chain that takes records of the first version has entered a migration, and one segment at
most was opened. -/
def MigratedOnce (s : MigrationHistory) : Prop := (∀ m ∈ s.begun, m = .v1Active) ∧
    s.segments.length ≤ 1

/-- From `s` to a later state: a final chain stays final, and no segment is opened. -/
def StaysFinal (s t : MigrationHistory) : Prop := s.Final → t.Final ∧ t.segments = s.segments

/-- The call begins a migration only where the chain takes records of the first version. -/
def OnV1 (s : MigrationHistory) (c : MigrationCall) : Prop :=
  c.Begins → s.chainMeta.migration = .v1Active

/-- What the calls keep: a chain that takes records of the first version has no segment. -/
structure Inv (s : MigrationHistory) : Prop where
  once : s.MigratedOnce
  closed : s.segments ≠ [] → s.chainMeta.migration ≠ .v1Active

variable {s t : MigrationHistory} {c : MigrationCall}

theorem inv_init {chainMeta : ChainMeta} {manifests : Str → Option Items} :
    (init chainMeta manifests).Inv :=
  ⟨⟨fun _ hm => absurd hm List.not_mem_nil, Nat.zero_le 1⟩, fun hne => absurd rfl hne⟩

theorem StaysFinal.trans {u : MigrationHistory} (h : s.StaysFinal t) (h' : t.StaysFinal u) :
    s.StaysFinal u := by
  intro hs
  obtain ⟨ht, hsame⟩ := h hs
  obtain ⟨hu, hsame'⟩ := h' ht
  exact ⟨hu, hsame'.trans hsame⟩

/-- A call that does not begin. -/
theorem next_of_not_begins (hbegins : ¬c.Begins) (h : c.next s = some t) :
    t.chainMeta = s.chainMeta ∧ t.begun = s.begun ∧ t.segments = s.segments := by
  have hnot : c.env.entry ≠ none ∨ MigrationBarrier.Unbegun c.env := by
    by_contra hboth
    simp only [not_or, not_not] at hboth
    exact hbegins hboth
  obtain ⟨hguarded, hmeta⟩ : c.barrier.guarded c.env (s.disk c) = ⟨s.disk c, false, false⟩ ∧
      (c.barrier.run c.env (s.disk c)).2.chainMeta = s.chainMeta :=
      MigrationBarrier.run_of_unbegun hnot
  obtain rfl := Option.some.inj h
  refine ⟨hmeta, ?_, ?_⟩
  · show s.begun ++ c.begun s = s.begun
    simp [MigrationCall.begun, hguarded]
  · show s.segments ++ c.opened s = s.segments
    simp [MigrationCall.opened, hguarded]

/-- A call that begins: the state that it overwrites is on record, and where it opens a segment the
chain is closed. -/
theorem next_of_begins (hbegins : c.Begins) (h : c.next s = some t) :
    t.begun = s.begun ++ [s.chainMeta.migration] ∧
      (t.segments = s.segments ∨ t.segments = s.segments ++ [c.barrier.v2Path] ∧
        t.chainMeta.migration ≠ .v1Active) := by
  have hrun := @MigrationBarrier.run_of_begun c.barrier c.env (s.disk c) hbegins.1 hbegins.2
  obtain ⟨hbegun, hclosed⟩ := hrun
  obtain rfl := Option.some.inj h
  refine ⟨?_, ?_⟩
  · show s.begun ++ c.begun s = _
    rw [MigrationCall.begun, if_pos hbegun]
  · cases hopen : (c.barrier.guarded c.env (s.disk c)).v2Started with
    | true =>
      refine .inr ⟨?_, hclosed hopen⟩
      show s.segments ++ c.opened s = _
      rw [MigrationCall.opened, if_pos hopen]
    | false =>
      left
      show s.segments ++ c.opened s = _
      simp [MigrationCall.opened, hopen]

/-- **One call** keeps the migration exactly where it begins on a chain of the first version. -/
theorem next_iff (hs : s.Inv) (h : c.next s = some t) :
    s.OnV1 c ↔ t.MigratedOnce ∧ s.StaysFinal t := by
  constructor
  · intro hon
    by_cases hbegins : c.Begins
    · have hv1 := hon hbegins
      obtain ⟨hbegun, hsegments⟩ := next_of_begins hbegins h
      have hnone : s.segments = [] := by
        by_contra hne
        exact hs.closed hne hv1
      refine ⟨⟨?_, ?_⟩, ?_⟩
      · intro m hm
        rw [hbegun, List.mem_append, List.mem_singleton] at hm
        rcases hm with hm | rfl
        · exact hs.once.1 m hm
        · exact hv1
      · rcases hsegments with heq | ⟨heq, -⟩ <;> simp [heq, hnone]
      · rintro (hfinal | hfinal) <;> rw [hv1] at hfinal <;> cases hfinal
    · obtain ⟨hmeta, hbegun, hsegments⟩ := next_of_not_begins hbegins h
      refine ⟨⟨hbegun ▸ hs.once.1, hsegments ▸ hs.once.2⟩, fun hfinal => ⟨?_, hsegments⟩⟩
      unfold Final
      rwa [hmeta]
  · rintro ⟨⟨hall, -⟩, -⟩ hbegins
    refine hall _ ?_
    rw [(next_of_begins hbegins h).1]
    exact List.mem_append_right _ (List.mem_singleton_self _)

theorem Inv.next (hs : s.Inv) (hon : s.OnV1 c) (h : c.next s = some t) : t.Inv := by
  refine ⟨((next_iff hs h).mp hon).1, ?_⟩
  by_cases hbegins : c.Begins
  · have hnone : s.segments = [] := by
      by_contra hne
      exact hs.closed hne (hon hbegins)
    rcases (next_of_begins hbegins h).2 with heq | ⟨-, hclosed⟩
    · exact fun hne => absurd (heq.trans hnone) hne
    · exact fun _ => hclosed
  · obtain ⟨hmeta, -, hsegments⟩ := next_of_not_begins hbegins h
    rw [hmeta, hsegments]
    exact hs.closed

/-- **When a chain is migrated once.** Of a sequence of calls: only a chain of the first version has
entered a migration, one segment at most was opened, and a chain that was `V2_ACTIVE` or
`MIGRATION_BLOCKED` stays so and has no segment opened later, exactly where every call that begins a
migration is made on a chain of the first version. -/
theorem migrates_once_iff (chainMeta : ChainMeta) (manifests : Str → Option Items)
    (calls : List MigrationCall) : (∀ earlier later s t, earlier ++ later <+: calls →
      Machine.run (fun s c => MigrationCall.next c s) (init chainMeta manifests) earlier = some s →
      Machine.run (fun s c => MigrationCall.next c s) s later = some t → t.MigratedOnce ∧
        s.StaysFinal t) ↔
    Machine.Along (fun s c => MigrationCall.next c s) OnV1 (init chainMeta manifests) calls := by
  refine Machine.along_iff_related (I := Inv) (R := StaysFinal) (fun s hs => ⟨hs, rfl⟩)
    (fun s t u hst htu => StaysFinal.trans hst htu)
    (fun s hs => hs.once) (fun s c t hs hon h => hs.next hon h) (fun s c h => ?_)
    (fun s c t hs h => next_iff hs h) inv_init
  cases h

/-! ## A chain that is migrated twice -/

/-- A call at which the outside verifier says no, with a segment of its own. -/
def refusedCall : MigrationCall :=
  ⟨{ MigrationBarrier.plainBarrier with v2Path := lit "second.jsonl" },
    { MigrationBarrier.migrates with
      headVerifier := .ok (.dict [(.str (lit "valid"), .bool false)]) }⟩

/-- A call at which everything works, with a segment of its own. -/
def secondCall : MigrationCall :=
  ⟨{ MigrationBarrier.plainBarrier with v2Path := lit "second.jsonl" }, MigrationBarrier.migrates⟩

def firstCall : MigrationCall := ⟨MigrationBarrier.plainBarrier, MigrationBarrier.migrates⟩

/-- The chain is migrated, goes back to the first version, and is migrated again. -/
theorem migrated_twice : ¬∀ (chainMeta : ChainMeta) (manifests : Str → Option Items)
    (earlier later : List MigrationCall)
    (s t : MigrationHistory), Machine.run (fun s c => MigrationCall.next c s)
    (init chainMeta manifests) earlier = some s →
    Machine.run (fun s c => MigrationCall.next c s) s later = some t → t.MigratedOnce ∧
        s.StaysFinal t := by
  intro h
  obtain ⟨-, hfinal⟩ := h {} (fun _ => none) [firstCall] [refusedCall, secondCall] _ _ rfl rfl
  obtain ⟨-, hsegments⟩ := hfinal (.inl rfl)
  exact absurd hsegments (by decide)

end MigrationHistory

end Ledger
