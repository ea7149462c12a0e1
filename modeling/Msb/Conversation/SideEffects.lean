import Msb.Conversation.Verified

/-!
# The side effects of a contract

What `side_effect_violations` lets through. A declaration is cut at its first `**` and taken below
the output root, and whatever lies at or below the directory that this resolves to is granted.

The cut may leave nothing, the rest may be `./`, go back by `..` or over a link: each of these is
the root, or some other directory that the declaration does not name. Only a bare `**` and a bare
`.` are meant to be.

* `sideEffectViolations_eq_nil` — which artifacts are let through
* `envelope_iff` — when they lie in the directories that the declarations name
-/

namespace Conversation

open Py Ledger

/-! ## Directories by their names -/

/-- One component of a path, by its name: `..` goes back by one. -/
def enter (here : Path) (name : Str) : Path :=
  if name = lit ".." then here.dropLast else here ++ [name]

/-- The directory that a declaration names, up to its first glob, without a look at the file system.
-/
def literalDir (base : Path) (raw : Str) : Path :=
  (((declaredDir raw).splitOn slash).filter fun p => p ≠ [] ∧ p ≠ lit ".").foldl enter base

/-- The declaration grants a path: it lies at or below the directory of the declaration, which is in
the root; and only a bare `**` or `.` stands for the root. -/
structure Grants (base : Path) (raw : Str) (target : Path) : Prop where
  below : literalDir base raw <+: target
  inside : base <+: literalDir base raw
  bare : literalDir base raw = base → raw = lit "**" ∨ raw = lit "."

theorem Grants.mono {base target target' : Path} {raw : Str} (h : Grants base raw target)
    (hbelow : target <+: target') : Grants base raw target' :=
  { h with below := h.below.trans hbelow }

/-! ## What is let through -/

section

variable {σ : Type} (sys : System σ) (lib : ExecLib) (fs : σ)

/-- A declaration that is not refused, and the directory that it resolves to. -/
structure Declares (base : Path) (effect : PyVal) (raw : Str) (dir : Path) : Prop where
  path : (getOr effect "path" (.str [])).map lib.str = .ok raw
  filled : strip raw ≠ []
  relative : raw.head? ≠ some slash
  resolved : sys.resolve fs (joinPath base (declaredDir raw)) = .ok dir
  inside : base <+: dir

/-- An artifact resolves to a path that some declaration grants. -/
def InEnvelope (declared : List PyVal) (outputRoot : Path) (artifact : PyVal) : Prop :=
  ∃ base target, sys.resolve fs outputRoot = .ok base ∧ artifactPath sys fs base artifact =
    .ok target ∧
    ∃ effect ∈ declared, ∃ raw dir, Declares sys lib fs base effect raw dir ∧ Grants base raw target

/-- The artifact resolves to the output root itself. -/
def IsRoot (outputRoot : Path) (artifact : PyVal) : Prop :=
  ∃ base, sys.resolve fs outputRoot = .ok base ∧ artifactPath sys fs base artifact = .ok base

/-- The artifact resolves to a path strictly inside the output root. -/
def StrictlyInside (outputRoot : Path) (artifact : PyVal) : Prop :=
  ∃ base target, sys.resolve fs outputRoot = .ok base ∧ artifactPath sys fs base artifact =
    .ok target ∧ base <+: target ∧ target ≠ base

/-- Where no declaration is refused, each resolves to a directory that some declaration grants by
its name. -/
def ResolvesAsNamed (declared : List PyVal) (outputRoot : Path) : Prop :=
  ∀ base, sys.resolve fs outputRoot = .ok base →
    (∀ effect ∈ declared, ∃ raw dir, Declares sys lib fs base effect raw dir) →
      ∀ effect ∈ declared, ∀ raw dir, Declares sys lib fs base effect raw dir →
        ∃ other ∈ declared, ∃ raw' dir', Declares sys lib fs base other raw' dir' ∧
        Grants base raw' dir

end

section

variable {σ : Type} {sys : System σ} {lib : ExecLib} {fs : σ} {base outputRoot dir : Path}
  {raw : Str} {effect : PyVal} {declared artifacts : List PyVal} {dirs : List Path}

theorem allowedDirs_eq_ok : ∀ {declared : List PyVal} {dirs : List Path},
    allowedDirs sys lib fs base declared = .ok (.ok dirs) ↔
      List.Forall₂ (fun effect dir => ∃ raw, Declares sys lib fs base effect raw dir) declared dirs
  | [], dirs => by
    rw [List.forall₂_nil_left_iff]
    constructor
    · intro h
      exact (Except.ok.inj (Except.ok.inj h)).symm
    · rintro rfl
      rfl
  | effect :: declared, dirs => by
    rw [List.forall₂_cons_left_iff, allowedDirs, bind_eq_ok]
    constructor
    · rintro ⟨path, hpath, h⟩
      have hfilled : strip (lib.str path) ≠ [] := fun hblank => by
        simp [hblank] at h
      simp only [if_neg hfilled] at h
      have hrelative : (lib.str path).head? ≠ some slash := fun habsolute => by
        simp [habsolute] at h
      simp only [if_neg hrelative] at h
      obtain ⟨dir, hdir, h⟩ := bind_eq_ok.mp h
      split at h
      · cases h
      next hinside =>
      -- The directories of the rest come after.
      obtain ⟨rest, hrest, h⟩ := bind_eq_ok.mp h
      obtain ⟨dirs', rfl, rfl⟩ := map_eq_ok.mp (Except.ok.inj h)
      have hprefix : base <+: dir := by simpa [within] using hinside
      exact ⟨dir, dirs', ⟨lib.str path, by rw [hpath]; rfl, hfilled, hrelative, hdir, hprefix⟩,
        allowedDirs_eq_ok.mp hrest, rfl⟩
    · rintro ⟨dir, dirs', ⟨raw, hraw⟩, hrest, rfl⟩
      obtain ⟨path, hpath, rfl⟩ := map_eq_ok.mp hraw.path
      have hinside : ¬within base dir = false := by simpa [within] using hraw.inside
      refine ⟨path, hpath, ?_⟩
      rw [if_neg hraw.filled, if_neg hraw.relative, hraw.resolved]
      show (if within base dir = false then _ else _) = _
      rw [if_neg hinside, allowedDirs_eq_ok.mpr hrest]
      rfl

/-- **Which artifacts are let through**: those at or below the directory of a declaration, where
none is refused. -/
theorem sideEffectViolations_eq_nil (hdeclared : declared ≠ []) :
    sideEffectViolations sys lib fs declared artifacts outputRoot = .ok [] ↔
      ∃ base dirs, sys.resolve fs outputRoot = .ok base ∧ allowedDirs sys lib fs base declared =
      .ok (.ok dirs) ∧
        ∀ a ∈ artifacts, ∃ target, artifactPath sys fs base a = .ok target ∧ ∃ dir ∈ dirs,
        dir <+: target := by
  unfold sideEffectViolations
  rw [if_neg (by simpa using hdeclared), bind_eq_ok]
  constructor
  · rintro ⟨base, hbase, h⟩
    obtain ⟨found, hfound, h⟩ := bind_eq_ok.mp h
    cases found with
    | error refused => cases h
    | ok dirs =>
      obtain ⟨targets, htargets, h⟩ := bind_eq_ok.mp h
      refine ⟨base, dirs, hbase, hfound, fun a ha => ?_⟩
      obtain ⟨pair, hpair, htarget⟩ := exists_of_mapM_eq_ok htargets ha
      obtain ⟨target, hartifact, rfl⟩ := map_eq_ok.mp htarget
      have hnone := List.map_eq_nil_iff.mp (Except.ok.inj h)
      have hany := List.filter_eq_nil_iff.mp hnone (a, target) hpair
      have hdir : ∃ dir ∈ dirs, dir <+: target := by simpa [within] using hany
      exact ⟨target, hartifact, hdir⟩
  · rintro ⟨base, dirs, hbase, hfound, hall⟩
    obtain ⟨targets, htargets⟩ : ∃ targets,
        (artifacts.mapM fun a => (artifactPath sys fs base a).map fun target => (a, target)) =
        .ok targets := by
      refine mapM_isOk.mpr fun a ha => ?_
      obtain ⟨target, htarget, -⟩ := hall a ha
      exact ⟨(a, target), map_eq_ok.mpr ⟨target, htarget, rfl⟩⟩
    refine ⟨base, hbase, bind_eq_ok.mpr ⟨.ok dirs, hfound, bind_eq_ok.mpr ⟨targets, htargets, ?_⟩⟩⟩
    refine congrArg Except.ok
      (List.map_eq_nil_iff.mpr (List.filter_eq_nil_iff.mpr fun pair hpair => ?_))
    obtain ⟨a, ha, hmapped⟩ := exists_of_mem_mapM htargets hpair
    obtain ⟨target, htarget, rfl⟩ := map_eq_ok.mp hmapped
    obtain ⟨target', htarget', hdir⟩ := hall a ha
    obtain rfl := Except.ok.inj (htarget.symm.trans htarget')
    simpa [within] using hdir

/-- An artifact by the text of a declaration is the directory of the declaration. -/
theorem artifactPath_declaredDir (h : Declares sys lib fs base effect raw dir) :
    artifactPath sys fs base (.str (declaredDir raw)) = .ok dir :=
  bind_eq_ok.mpr ⟨declaredDir raw, rfl, h.resolved⟩

theorem exists_mem_of_declares (hdirs : allowedDirs sys lib fs base declared = .ok (.ok dirs))
    (heffect : effect ∈ declared) (h : Declares sys lib fs base effect raw dir) : dir ∈ dirs := by
  obtain ⟨i, hi, rfl⟩ := List.mem_iff_getElem.mp heffect
  have hall := List.forall₂_iff_get.mp (allowedDirs_eq_ok.mp hdirs)
  have hlt : i < dirs.length := hall.1 ▸ hi
  obtain ⟨raw', h'⟩ := hall.2 i hi hlt
  obtain rfl := Except.ok.inj (h.path.symm.trans h'.path)
  obtain rfl := Except.ok.inj (h.resolved.symm.trans h'.resolved)
  exact List.getElem_mem hlt

theorem exists_declares_of_mem (hdirs : allowedDirs sys lib fs base declared = .ok (.ok dirs))
    (hdir : dir ∈ dirs) : ∃ effect ∈ declared, ∃ raw, Declares sys lib fs base effect raw dir := by
  obtain ⟨i, hi, rfl⟩ := List.mem_iff_getElem.mp hdir
  have hall := List.forall₂_iff_get.mp (allowedDirs_eq_ok.mp hdirs)
  have hlt : i < declared.length := hall.1 ▸ hi
  exact ⟨_, List.getElem_mem hlt, hall.2 i hlt hi⟩

/-- Where no declaration is refused, there are their directories. -/
theorem exists_allowedDirs (h : ∀ effect ∈ declared, ∃ raw dir,
    Declares sys lib fs base effect raw dir) :
    ∃ dirs, allowedDirs sys lib fs base declared = .ok (.ok dirs) := by
  induction declared with
  | nil => exact ⟨[], rfl⟩
  | cons effect declared ih =>
    obtain ⟨raw, dir, hfirst⟩ := h effect List.mem_cons_self
    obtain ⟨dirs, hdirs⟩ := ih fun e he => h e (List.mem_cons_of_mem _ he)
    exact ⟨dir :: dirs, allowedDirs_eq_ok.mpr (.cons ⟨raw, hfirst⟩ (allowedDirs_eq_ok.mp hdirs))⟩

theorem declares_of_allowedDirs (hdirs : allowedDirs sys lib fs base declared = .ok (.ok dirs)) :
    ∀ effect ∈ declared, ∃ raw dir, Declares sys lib fs base effect raw dir := by
  intro effect heffect
  obtain ⟨i, hi, rfl⟩ := List.mem_iff_getElem.mp heffect
  have hall := List.forall₂_iff_get.mp (allowedDirs_eq_ok.mp hdirs)
  have hlt : i < dirs.length := hall.1 ▸ hi
  obtain ⟨raw, h⟩ := hall.2 i hi hlt
  exact ⟨raw, _, h⟩

end

/-- **When the artifacts that are let through lie in the envelope**: where no declaration is
refused, each one resolves to a directory that some declaration names. An artifact that is let
through is in the root, and it may be the root itself. -/
theorem envelope_iff {σ : Type} (sys : System σ) (lib : ExecLib) (fs : σ) (declared : List PyVal)
    (outputRoot : Path) :
    ((∀ artifacts, sideEffectViolations sys lib fs declared artifacts outputRoot = .ok [] →
        ∀ a ∈ artifacts, InEnvelope sys lib fs declared outputRoot a) ↔
        ResolvesAsNamed sys lib fs declared outputRoot) ∧
      ∀ artifacts, sideEffectViolations sys lib fs declared artifacts outputRoot = .ok [] →
        ∀ a ∈ artifacts, StrictlyInside sys fs outputRoot a ↔ ¬IsRoot sys fs outputRoot a := by
  by_cases hdeclared : declared = []
  · subst hdeclared
    have hnone : ∀ artifacts, sideEffectViolations sys lib fs [] artifacts outputRoot = .ok [] →
        artifacts = [] :=
      fun artifacts h => List.map_eq_nil_iff.mp (Except.ok.inj h)
    refine ⟨iff_of_true (fun artifacts h a ha => ?_) fun base _ _ effect heffect =>
      absurd heffect List.not_mem_nil, fun artifacts h a ha => ?_⟩
    · rw [hnone artifacts h] at ha
      cases ha
    · rw [hnone artifacts h] at ha
      cases ha
  refine ⟨⟨?_, ?_⟩, ?_⟩
  · intro h base hbase hall effect heffect raw dir hdeclares
    -- The artifact that is called like the declaration is let through.
    obtain ⟨dirs, hdirs⟩ := exists_allowedDirs hall
    have hdir := exists_mem_of_declares hdirs heffect hdeclares
    have hartifact := artifactPath_declaredDir hdeclares
    have hpasses : sideEffectViolations sys lib fs declared [.str (declaredDir raw)] outputRoot =
        .ok [] := by
      refine (sideEffectViolations_eq_nil hdeclared).mpr ⟨base, dirs, hbase, hdirs, fun a ha => ?_⟩
      rw [List.mem_singleton.mp ha]
      exact ⟨dir, hartifact, dir, hdir, List.prefix_rfl⟩
    obtain ⟨base', target, hbase', htarget, hgranted⟩ := h _ hpasses _ (List.mem_singleton_self _)
    obtain rfl := Except.ok.inj (hbase.symm.trans hbase')
    obtain rfl := Except.ok.inj (hartifact.symm.trans htarget)
    exact hgranted
  · intro h artifacts hpasses a ha
    obtain ⟨base, dirs, hbase, hdirs, hall⟩ := (sideEffectViolations_eq_nil hdeclared).mp hpasses
    obtain ⟨target, htarget, dir, hdir, hbelow⟩ := hall a ha
    obtain ⟨effect, heffect, raw, hdeclares⟩ := exists_declares_of_mem hdirs hdir
    obtain ⟨other, hother, raw', dir', hdeclares', hgrants⟩ :=
      h base hbase (declares_of_allowedDirs hdirs) effect heffect raw dir hdeclares
    exact ⟨base, target, hbase, htarget, other, hother, raw', dir', hdeclares', hgrants.mono hbelow⟩
  · intro artifacts hpasses a ha
    obtain ⟨base, dirs, hbase, hdirs, hall⟩ := (sideEffectViolations_eq_nil hdeclared).mp hpasses
    obtain ⟨target, htarget, dir, hdir, hbelow⟩ := hall a ha
    obtain ⟨effect, heffect, raw, hdeclares⟩ := exists_declares_of_mem hdirs hdir
    constructor
    · rintro ⟨base', target', hbase', htarget', -, hne⟩ ⟨base'', hbase'', hroot⟩
      obtain rfl := Except.ok.inj (hbase'.symm.trans hbase'')
      exact hne (Except.ok.inj (htarget'.symm.trans hroot))
    · intro hroot
      refine ⟨base, target, hbase, htarget, hdeclares.inside.trans hbelow, ?_⟩
      rintro rfl
      exact hroot ⟨target, hbase, htarget⟩

/-- Nothing is left of `**/notes.md` before its glob, and so it grants the root. -/
theorem glob_grants_root : ¬∀ (σ : Type) (sys : System σ) (lib : ExecLib) (fs : σ)
    (declared : List PyVal) (outputRoot : Path)
    (artifacts : List PyVal), sideEffectViolations sys lib fs declared artifacts
    outputRoot = .ok [] → ∀ a ∈ artifacts, InEnvelope sys lib fs declared outputRoot a := by
  intro h
  let effect := object [("kind", .str (lit "file_write")), ("path", .str (lit "**/notes.md"))]
  obtain ⟨base, target, hbase, -, effect', heffect, raw, dir, hdeclares, hgrants⟩ :=
    h (List Path) idle .plain [] [effect] [lit "root"] [.str (lit "other.txt")]
      (by decide) _ (List.mem_singleton_self _)
  obtain rfl := Except.ok.inj hbase
  rw [List.mem_singleton.mp heffect] at hdeclares
  obtain rfl := Except.ok.inj hdeclares.path
  have hliteral : literalDir [lit "root"] (lit "**/notes.md") = [lit "root"] := by decide
  rcases hgrants.bare hliteral with hraw | hraw <;> exact absurd hraw (by decide)

end Conversation
