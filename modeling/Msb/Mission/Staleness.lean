import Msb.Ledger.V2Verify
import Msb.Mission.System

/-!
# Stale versions

A plan is built against a blueprint and a task graph against a plan. A version names what it was
built against by its hash, so it is stale when that hash is not the one of the latest parent. A
blueprint whose content comes back has its old hash again.

* `stale_iff` — what `stale_versions` reports of any tables
* `History.builtAgainst` — the hash that a version carries is the one of the parent that was the
  latest when it was added
* `staleness_exact` — in every state reached the reports are exact, and a plan is reviewed or built
  only where it was built against the content of the latest blueprint
-/

namespace Mission

open Py Ledger Machine

/-- `stale_versions` -/
def staleVersions (store : MissionStore) (db : MissionDb) (missionId : Str) :
    Except PyError (List StaleVersion) := do
  let _ ← row store db missionId
  .ok (stale db missionId)

variable {P : Platform} {store : MissionStore} {db : MissionDb} {missionId : Str}

/-! ## What is reported -/

/-- A version is among those that are reported. -/
def Reports (reports : List StaleVersion) (kind : VersionKind) (version : Nat) : Prop :=
  ∃ s ∈ reports, s.kind = kind ∧ s.version = version

/-- The latest plan carries another hash than the latest blueprint has. -/
def PlanStale (db : MissionDb) (missionId : Str) (p : VersionRow) : Prop :=
  ∃ b, latest db missionId .blueprint = some b ∧ p.parentSha256 ≠ some b.sha256

theorem staleStep_plan (db : MissionDb) (missionId : Str) :
    (staleStep db missionId [] .plan = [] ∧ ∀ p, latest db missionId .plan = some p →
      ¬ PlanStale db missionId p) ∨
      ∃ p reason, staleStep db missionId [] .plan = [⟨.plan, p.version, reason⟩] ∧
        latest db missionId .plan = some p ∧ PlanStale db missionId p := by
  unfold staleStep PlanStale
  cases hplan : latest db missionId .plan with
  | none => exact .inl ⟨rfl, fun p hp => by cases hp⟩
  | some p =>
    simp only [parentKind, List.map_nil, List.not_mem_nil, if_false, Option.some.injEq, forall_eq']
    cases hblueprint : latest db missionId .blueprint with
    | none => exact .inl ⟨rfl, by simp⟩
    | some b =>
      by_cases hsha : p.parentSha256 = some b.sha256
      · simp [hsha]
      · right
        exact ⟨p, _, if_pos hsha, rfl, b, rfl, hsha⟩

/-- **What is reported**: the latest plan where its parent hash is not the one of the latest
blueprint, and the latest task graph where that plan is reported or its parent hash is not the one
of the latest plan. -/
theorem stale_iff (kind : VersionKind) (version : Nat) :
    Reports (stale db missionId) kind version ↔
      (kind = .plan ∧ ∃ p, latest db missionId .plan = some p ∧ p.version = version ∧
        PlanStale db missionId p) ∨
      (kind = .taskGraph ∧ ∃ g, latest db missionId .taskGraph = some g ∧ g.version = version ∧
        ∃ p, latest db missionId .plan = some p ∧
        (PlanStale db missionId p ∨ g.parentSha256 ≠ some p.sha256)) := by
  have hfold : stale db missionId = staleStep db missionId (staleStep db missionId [] .plan)
    .taskGraph := rfl
  rw [hfold]
  rcases staleStep_plan db missionId with ⟨hnone, hfresh⟩ | ⟨p, reason, hsome, hplan, hstale⟩
  · rw [hnone]
    unfold staleStep
    cases hgraph : latest db missionId .taskGraph with
    | none =>
      simp only [Reports, List.not_mem_nil, false_and, exists_false, reduceCtorEq, and_false,
        or_false, false_iff]
      rintro ⟨-, p, hplan, -, hstale⟩
      exact hfresh p hplan hstale
    | some g =>
      simp only [parentKind, List.map_nil, List.not_mem_nil, if_false]
      cases hplan : latest db missionId .plan with
      | none => simp [Reports]
      | some p =>
        by_cases hsha : g.parentSha256 = some p.sha256
        · have := hfresh p hplan
          simp [Reports, hsha, this]
        · have := hfresh p hplan
          simp only [ne_eq, hsha, not_false_eq_true, if_true, List.nil_append, Reports,
            List.mem_singleton,
            exists_eq_left, Option.some.injEq, exists_eq_left', this, and_false, and_true, false_or,
            eq_comm (a := kind)]
  · rw [hsome]
    unfold staleStep
    cases hgraph : latest db missionId .taskGraph with
    | none =>
      simp only [Reports, List.mem_singleton, exists_eq_left, hplan, Option.some.injEq,
        exists_eq_left', hstale,
        reduceCtorEq, false_and, exists_false, and_false, or_false, and_true]
      tauto
    | some g =>
      simp only [parentKind, List.map_cons, List.map_nil, if_true, Reports, List.singleton_append,
        List.mem_cons, List.not_mem_nil, or_false, exists_eq_or_imp, exists_eq_left, hplan,
        Option.some.injEq,
        exists_eq_left', hstale, true_or, and_true, eq_comm (a := kind)]

/-! ## What a version is built against -/

/-- The tables with these versions. -/
def upTo (versions : List VersionRow) : MissionDb := ⟨[], [], versions⟩

theorem latest_upTo (db : MissionDb) : latest (upTo db.versions) = latest db := rfl

/-- What `add_version` has checked and written of a version. -/
structure Recorded (P : Platform) (db : MissionDb) (v : VersionRow) : Prop where
  number : v.version = ((latest db v.missionId v.kind).map VersionRow.version).getD 0 + 1
  parent : parentSha db v.missionId v.kind = .ok v.parentSha256
  hashed : ∃ body, canonicalize P body = .ok v.body ∧ versionSha256 P v.kind v.parentSha256 body =
    .ok v.sha256

theorem canonical_eq_ok {value : PyVal} {what text : Str} (h : canonical P value what = .ok text) :
    canonicalize P value = .ok text := by
  unfold canonical at h
  split at h
  · next htext => rw [htext, Except.ok.inj h]
  · cases h
  · cases h

variable {kind : VersionKind} {versions : List VersionRow} {v : VersionRow} {s : MissionSystem}

/-- A call adds a recorded version, or none. -/
theorem addVersion_recorded {now : Str} {body : PyVal} {createdBy : Str} {step : MissionStep}
    (h : addVersion P store db now missionId kind body createdBy = .ok step) :
    step.db.versions = db.versions ∨ ∃ v, Recorded P db v ∧
        step.db.versions = db.versions ++ [v] := by
  simp only [addVersion, bind_eq_ok, raiseIf_eq_ok, exists_unit] at h
  obtain ⟨-, bodyJson, hbody, m, -, -, parent, hparent, sha, hsha, hstep⟩ := h
  have hinsert : ∀ v : VersionRow, insertVersion db v = .ok step →
      step.db.versions = db.versions ++ [v] := by
    intro v hv
    obtain ⟨-, -, hv⟩ := bind_eq_ok.mp hv
    rw [← Except.ok.inj hv]
  cases hlatest : latest db missionId kind with
  | none =>
    rw [hlatest] at hstep
    refine .inr ⟨_, ⟨?_, hparent, body, canonical_eq_ok hbody, hsha⟩, hinsert _ hstep⟩
    show 1 = ((latest db missionId kind).map VersionRow.version).getD 0 + 1
    rw [hlatest]
    rfl
  | some v =>
    rw [hlatest] at hstep
    dsimp only at hstep
    split_ifs at hstep with hsame
    · -- the latest version again
      rw [← Except.ok.inj hstep]
      exact .inl rfl
    · refine .inr ⟨_, ⟨?_, hparent, body, canonical_eq_ok hbody, hsha⟩, hinsert _ hstep⟩
      show v.version + 1 = ((latest db missionId kind).map VersionRow.version).getD 0 + 1
      rw [hlatest]
      rfl

/-- The versions that calls have added, one after the other. -/
inductive History (P : Platform) : List VersionRow → Prop where
  | nil : History P []
  | add {versions : List VersionRow} {v : VersionRow} (before : History P versions)
      (recorded : Recorded P (upTo versions) v) : History P (versions ++ [v])

/-- The parent that was the latest one when the version was added. -/
def BuiltAgainst (versions : List VersionRow) (v p : VersionRow) : Prop :=
  ∃ before after parent, versions = before ++ v :: after ∧ parentKind v.kind = some parent ∧
    latest (upTo before) v.missionId parent = some p

/-- **The latest version after one is added**: it is that one. -/
theorem latest_add (h : Recorded P (upTo versions) v) (missionId : Str) (kind : VersionKind) :
    latest (upTo (versions ++ [v])) missionId kind
      = if v.missionId = missionId ∧ v.kind = kind then some v else latest (upTo versions) missionId
      kind := by
  unfold latest MissionDb.versionsOf upTo
  rw [List.filter_append]
  by_cases hv : v.missionId = missionId ∧ v.kind = kind
  · obtain ⟨rfl, rfl⟩ := hv
    have hnumber := h.number
    unfold latest MissionDb.versionsOf upTo at hnumber
    rw [if_pos ⟨rfl, rfl⟩, List.filter_cons_of_pos (by simp), List.filter_nil, List.argmax_concat]
    cases hlatest : (versions.filter fun w => w.missionId = v.missionId ∧ w.kind = v.kind).argmax
      VersionRow.version with
    | none => rfl
    | some w =>
      rw [hlatest] at hnumber
      have hlt : w.version < v.version := by
        rw [hnumber]
        exact Nat.lt_succ_self _
      exact if_pos hlt
  · rw [if_neg hv, List.filter_cons_of_neg (by simpa using hv), List.filter_nil, List.append_nil]

theorem latest_mem (h : latest db missionId kind = some v) :
    v ∈ db.versions ∧ v.missionId = missionId ∧ v.kind = kind := by
  have hmem := List.argmax_mem (Option.mem_def.mpr h)
  simpa [MissionDb.versionsOf] using hmem

/-- What is recorded of every version of a history, and of its parent. -/
theorem History.recorded (h : History P versions) (hv : v ∈ versions) :
    ∃ before after, versions = before ++ v :: after ∧ Recorded P (upTo before) v := by
  induction h with
  | nil => cases hv
  | @add versions w hbefore hrecorded ih =>
    rcases List.mem_append.mp hv with hv | hv
    · obtain ⟨before, after, rfl, hrec⟩ := ih hv
      exact ⟨before, after ++ [w], by simp, hrec⟩
    · obtain rfl := List.mem_singleton.mp hv
      exact ⟨_, [], rfl, hrecorded⟩

/-- **The hash that a version carries** is the one of what it was built against. -/
theorem History.builtAgainst (h : History P versions) (hv : v ∈ versions) {parent : VersionKind}
    (hparent : parentKind v.kind = some parent) :
    ∃ p, BuiltAgainst versions v p ∧ v.parentSha256 = some p.sha256 ∧ p ∈ versions ∧
        p.kind = parent := by
  obtain ⟨before, after, heq, hrec⟩ := h.recorded hv
  have hsha := hrec.parent
  unfold parentSha at hsha
  rw [hparent] at hsha
  dsimp only at hsha
  cases hlatest : latest (upTo before) v.missionId parent with
  | none =>
    rw [hlatest] at hsha
    cases hsha
  | some p =>
    rw [hlatest] at hsha
    obtain ⟨hmem, -, hkind⟩ := latest_mem hlatest
    refine ⟨p, ⟨before, after, parent, heq, hparent, hlatest⟩, (Except.ok.inj hsha).symm, ?_, hkind⟩
    rw [heq]
    exact List.mem_append_left _ hmem

/-- A version has a parent that is there. -/
theorem History.parent_latest (h : History P versions) {parent : VersionKind}
    (hparent : parentKind kind = some parent)
    (hv : (latest (upTo versions) missionId kind).isSome) :
    (latest (upTo versions) missionId parent).isSome := by
  induction h with
  | nil => cases hv
  | @add versions v hbefore hrec ih =>
    rw [latest_add hrec] at hv ⊢
    by_cases hself : v.missionId = missionId ∧ v.kind = parent
    · rw [if_pos hself]
      rfl
    rw [if_neg hself]
    by_cases hnew : v.missionId = missionId ∧ v.kind = kind
    · obtain ⟨rfl, rfl⟩ := hnew
      have hsha := hrec.parent
      unfold parentSha at hsha
      rw [hparent] at hsha
      dsimp only at hsha
      cases hlatest : latest (upTo versions) v.missionId parent with
      | none =>
        rw [hlatest] at hsha
        cases hsha
      | some p => rfl
    · rw [if_neg hnew] at hv
      exact ih hv

/-! ## One hash, one body -/

/-- **Versions of one kind that share their hash have the same canonical body.** -/
theorem body_of_sha (hP : Function.Injective P.sha256) {kind' : VersionKind}
    {parent parent' : Option Str} {body body' : PyVal} {sha text text' : Str}
    (h : versionSha256 P kind parent body = .ok sha)
    (h' : versionSha256 P kind' parent' body' = .ok sha) (htext : canonicalize P body = .ok text)
    (htext' : canonicalize P body' = .ok text') : text = text' := by
  simp only [versionSha256, sha256Hex, bind_eq_ok, encodeE_eq_ok] at h h'
  obtain ⟨c, hc, a, ha, hh⟩ := h
  obtain ⟨c', hc', a', ha', hh'⟩ := h'
  obtain rfl := hexdigest_inj hP ((Except.ok.inj hh).trans (Except.ok.inj hh').symm)
  obtain rfl := encode_injective ha ha'
  have htree :=
    render_injective canonicalStyle rfl
    ((canonicalize_eq_ok hc).symm.trans (canonicalize_eq_ok hc'))
  simp only [toJson, toJsonItems, if_true, Json.obj.injEq] at htree
  -- the body stands under its key in both trees
  have hmem : (lit "body", toJson P.keySort true body) ∈ (P.keySort.sort
      [(.str (lit "kind"), .str kind.text),
        (.str (lit "parent_sha256"), toJson P.keySort true (optText parent)),
        (.str (lit "body"), toJson P.keySort true body)]).map fun p => (keyText p.1, p.2) := by
    refine List.mem_map.mpr ⟨(.str (lit "body"), toJson P.keySort true body), ?_, rfl⟩
    rw [(P.keySort.perm _).mem_iff]
    simp
  rw [htree] at hmem
  obtain ⟨p, hp, heq⟩ := List.mem_map.mp hmem
  rw [(P.keySort.perm _).mem_iff] at hp
  have hbody : toJson P.keySort true body = toJson P.keySort true body' := by
    simp only [List.mem_cons, List.not_mem_nil, or_false] at hp
    rcases hp with rfl | rfl | rfl
    · exact absurd (Prod.mk.inj heq).1 (show lit "kind" ≠ lit "body" by decide)
    · exact absurd (Prod.mk.inj heq).1 (show lit "parent_sha256" ≠ lit "body" by decide)
    · exact (Prod.mk.inj heq).2.symm
  rw [canonicalize_eq_ok htext, canonicalize_eq_ok htext', hbody]

/-! ## Reachable tables -/

/-- It holds of the committed tables, and of those of the open transaction. -/
structure HoldsOf (I : MissionDb → Prop) (s : MissionSystem) : Prop where
  committed : I s.db
  stepped : ∀ db call, s.txn = some (.stepped db call) → I db
  appended : ∀ db call record, s.txn = some (.appended db call record) → I db

theorem HoldsOf.closed {I : MissionDb → Prop} (h : I s.db) (htxn : s.txn = none) : HoldsOf I s where
  committed := h
  stepped db call heq := by rw [htxn] at heq; cases heq
  appended db call record heq := by rw [htxn] at heq; cases heq

/-- What every call of the store keeps holds of the committed tables in every state reached. -/
theorem run_tables {I : MissionDb → Prop} (h0 : I .init)
    (hI : ∀ op now db step, I db → MissionOp.step P store op now db = .ok step → I step.db)
    {chain : AuditDb} {es : List MissionEvent}
    (h : run (missionStep P store) (.init chain) es = some s) : I s.db := by
  refine (run_invariant (I := HoldsOf I) (fun t e u ht hu => ?_) (.closed h0 rfl) h).committed
  cases missionStep_move hu with
  | stay op now => exact ht
  | opened op now step call _ hran _ =>
    refine ⟨ht.committed, ?_, ?_⟩
    · rintro db call ⟨⟩
      exact hI op now _ step ht.committed hran
    · rintro db call record ⟨⟩
  | recorded env db call record chain htxn _ =>
    refine ⟨ht.committed, ?_, ?_⟩
    · rintro db call ⟨⟩
    · rintro db call record ⟨⟩
      exact ht.stepped _ _ htxn
  | refused env db call e chain _ _ => exact .closed ht.committed rfl
  | committed db call record htxn => exact .closed (ht.appended db call record htxn) rfl
  | failed db call record _ => exact .closed ht.committed rfl
  | other env call _ => exact ⟨ht.committed, ht.stepped, ht.appended⟩

/-- Every call keeps the history. -/
theorem History.step {op : MissionOp} {now : Str} {step : MissionStep} (h : History P db.versions)
    (hstep : MissionOp.step P store op now db = .ok step) : History P step.db.versions := by
  cases op with
  | create missionId objective createdBy constraints =>
    obtain ⟨m, -, -, -, -, -, hdb⟩ := create_spec hstep
    rw [hdb]
    exact h
  | addVersion missionId kind body createdBy =>
    rcases addVersion_recorded hstep with hsame | ⟨v, hrec, hadd⟩
    · rw [hsame]
      exact h
    · rw [hadd]
      exact .add h ⟨hrec.number, hrec.parent, hrec.hashed⟩
  | transition missionId toState actor reason approvedBy =>
    obtain ⟨target, m, -, -, -, -, -, -, -, -, -, rfl⟩ := transition_eq_ok.mp hstep
    exact h

theorem history_of_run {chain : AuditDb} {es : List MissionEvent}
    (h : run (missionStep P store) (.init chain) es = some s) : History P s.db.versions :=
  run_tables (I := fun db => History P db.versions) .nil (fun _ _ _ _ hdb hstep => hdb.step hstep) h

/-! ## Exactness -/

/-- The reports are about the latest plan and the latest task graph, and say of each whether its
parent hash is the one of what is the latest now. -/
structure ExactReports (db : MissionDb) (missionId : Str) (reports : List StaleVersion) : Prop where
  plan : ∀ p, latest db missionId .plan = some p → ∃ b, latest db missionId .blueprint = some b ∧
    (Reports reports .plan p.version ↔ p.parentSha256 ≠ some b.sha256)
  taskGraph : ∀ g, latest db missionId .taskGraph = some g →
    ∃ p, latest db missionId .plan = some p ∧
    (Reports reports .taskGraph g.version ↔ g.parentSha256 ≠ some p.sha256 ∨
      Reports reports .plan p.version)
  only : ∀ kind version, Reports reports kind version → kind ≠ .blueprint ∧
    ∃ v, latest db missionId kind = some v ∧ v.version = version

/-- The latest plan was built against a blueprint that has the content of the latest one. -/
def BuiltAgainstCurrent (db : MissionDb) (missionId : Str) : Prop :=
  ∃ p b built, latest db missionId .plan = some p ∧ latest db missionId .blueprint = some b ∧
    BuiltAgainst db.versions p built ∧ built.kind = .blueprint ∧ built.body = b.body

theorem History.exactReports (h : History P db.versions) (missionId : Str) :
    ExactReports db missionId (stale db missionId) := by
  have hplan : ∀ p, latest db missionId .plan = some p →
      (Reports (stale db missionId) .plan p.version ↔ PlanStale db missionId p) := by
    intro p hp
    rw [stale_iff]
    simp [hp]
  refine ⟨fun p hp => ?_, fun g hg => ?_, fun kind version hreport => ?_⟩
  · obtain ⟨b, hb⟩ := Option.isSome_iff_exists.mp
      (h.parent_latest (show parentKind .plan = some .blueprint from rfl)
        (by rw [latest_upTo, hp]; rfl))
    rw [latest_upTo] at hb
    refine ⟨b, hb, ?_⟩
    rw [hplan p hp, PlanStale]
    simp [hb]
  · obtain ⟨p, hp⟩ := Option.isSome_iff_exists.mp
      (h.parent_latest (show parentKind .taskGraph = some .plan from rfl)
        (by rw [latest_upTo, hg]; rfl))
    rw [latest_upTo] at hp
    refine ⟨p, hp, ?_⟩
    rw [hplan p hp, stale_iff]
    simp only [reduceCtorEq, false_and, false_or, true_and, hg, hp, Option.some.injEq,
      exists_eq_left']
    tauto
  · rcases (stale_iff kind version).mp hreport with ⟨rfl, p, hp, hversion, -⟩
      | ⟨rfl, g, hg, hversion, -⟩
    · exact ⟨by decide, p, hp, hversion⟩
    · exact ⟨by decide, g, hg, hversion⟩

/-- What a transition into the review of a plan, or into building, has checked. -/
theorem checkArtifacts_plan {target : MissionState} (htarget : target = .planReview ∨
    target = .building) (h : checkArtifacts db missionId target = .ok ()) :
    ∃ p, latest db missionId .plan = some p ∧ ¬ PlanStale db missionId p := by
  have hcurrent : requiresCurrentPlan target = true := by
    rcases htarget with rfl | rfl
    · rfl
    · rfl
  simp only [checkArtifacts, bind_eq_ok, raiseIf_eq_ok, exists_unit, hcurrent, if_true] at h
  obtain ⟨-, hplan, h⟩ := h
  obtain ⟨p, hp⟩ : ∃ p, latest db missionId .plan = some p :=
    Option.ne_none_iff_exists'.mp (by simpa using hplan)
  refine ⟨p, hp, fun hstale => ?_⟩
  obtain ⟨s, hs, hkind, -⟩ := (stale_iff .plan p.version).mpr (.inl ⟨rfl, p, hp, rfl, hstale⟩)
  have hmem : s ∈ (stale db missionId).filter fun s => s.kind = .plan :=
    List.mem_filter.mpr ⟨hs, by simpa using hkind⟩
  split at h
  · cases h
  · next hnil =>
    rw [hnil] at hmem
    cases hmem

theorem History.builtAgainstCurrent (hP : Function.Injective P.sha256) (h : History P db.versions)
    {p : VersionRow}
    (hp : latest db missionId .plan = some p) (hfresh : ¬ PlanStale db missionId p) :
    BuiltAgainstCurrent db missionId := by
  obtain ⟨hmem, -, hkind⟩ := latest_mem hp
  obtain ⟨built, hbuilt, hsha, hbuiltMem, hbuiltKind⟩ :=
    h.builtAgainst hmem (show parentKind p.kind = some .blueprint by rw [hkind]; rfl)
  obtain ⟨b, hb⟩ := Option.isSome_iff_exists.mp
    (h.parent_latest (show parentKind .plan = some .blueprint from rfl)
      (by rw [latest_upTo, hp]; rfl))
  rw [latest_upTo] at hb
  have hsame : built.sha256 = b.sha256 := by
    by_contra hne
    refine hfresh ⟨b, hb, ?_⟩
    rw [hsha]
    exact fun heq => hne (Option.some.inj heq)
  obtain ⟨_, _, _, hrec⟩ := h.recorded hbuiltMem
  obtain ⟨_, _, _, hrec'⟩ := h.recorded (latest_mem hb).1
  obtain ⟨body, htext, hhash⟩ := hrec.hashed
  obtain ⟨body', htext', hhash'⟩ := hrec'.hashed
  rw [hsame] at hhash
  exact ⟨p, b, built, hp, hb, hbuilt, hbuiltKind, body_of_sha hP hhash hhash' htext htext'⟩

/-- **Staleness is exact.** In every state reached the reports say of the latest plan and of the
latest task graph whether they were built against what is the latest now, and a transition that
reviews a plan or builds it finds one that was built against the content of the latest blueprint. -/
theorem staleness_exact (hP : Function.Injective P.sha256) {chain : AuditDb}
    {es : List MissionEvent} {s : MissionSystem}
    (h : run (missionStep P store) (.init chain) es = some s) (missionId : Str) :
    (∀ reports, staleVersions store s.db missionId = .ok reports →
      ExactReports s.db missionId reports) ∧ ∀ now toState actor reason approvedBy step target,
        transition store s.db now missionId toState actor reason approvedBy = .ok step →
        MissionState.ofText store.repr toState = .ok target → target = .planReview ∨
          target = .building →
        BuiltAgainstCurrent s.db missionId := by
  have hhistory := history_of_run h
  constructor
  · intro reports hreports
    obtain ⟨m, -, hstale⟩ := bind_eq_ok.mp hreports
    rw [← Except.ok.inj hstale]
    exact hhistory.exactReports missionId
  · intro now toState actor reason approvedBy step target hstep htarget hstate
    obtain ⟨target', m, htarget', -, -, -, -, -, -, hart, -, -⟩ := transition_eq_ok.mp hstep
    obtain rfl := Except.ok.inj (htarget'.symm.trans htarget)
    obtain ⟨p, hp, hfresh⟩ := checkArtifacts_plan hstate hart
    exact hhistory.builtAgainstCurrent hP hp hfresh

/-- A blueprint, a plan of it, another blueprint, and the content of the first one again. -/
def reAdded : List MissionEvent :=
  [.create (lit "m1") (lit "objective") (lit "hermes") none,
    .addVersion (lit "m1") .blueprint (.dict []) (lit "hermes"),
    .addVersion (lit "m1") .plan (.dict []) (lit "hermes"),
    .addVersion (lit "m1") .blueprint (.dict [(.str (lit "a"), .int 1)]) (lit "hermes"),
    .addVersion (lit "m1") .blueprint (.dict []) (lit "hermes")].flatMap commits

theorem staleness_exact_reAdded : ∃ s, run (missionStep ⟨KeySort.insertion, id⟩ ⟨[], id⟩)
    (.init .init) reAdded = some s ∧ s.db.versions.length = 4 ∧
    ∀ reports, staleVersions ⟨[], id⟩ s.db (lit "m1") = .ok reports →
        ExactReports s.db (lit "m1") reports := by
  have hrun : ((run (missionStep ⟨KeySort.insertion, id⟩ ⟨[], id⟩) (.init .init) reAdded).map
      fun s => s.db.versions.length) = some 4 := by decide +kernel
  obtain ⟨s, hs, hlen⟩ := Option.map_eq_some_iff.mp hrun
  exact ⟨s, hs, hlen,
    (staleness_exact (P := ⟨KeySort.insertion, id⟩) Function.injective_id hs (lit "m1")).1⟩

end Mission
