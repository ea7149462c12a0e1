import Msb.Infra.Run
import Msb.Db.Migrations

/-!
# Is every migration applied once?

The script of a migration is committed by its own `COMMIT`, and the version is another transaction.
A process that ends in between leaves a script that nothing records, and nothing keeps two processes
from running one script.

* `Inv.step` — what a step keeps where the condition holds
* `run_applied_once` — the runs in which every migration is applied once
-/

namespace Db

open Py Machine

variable {δ ι : Type} (exec : Str → δ → Except PyError δ)

/-- The migration whose script is run next. -/
def Phase.next : Phase → Option Migration
  | .running (migration :: _) => some migration
  | _ => none

/-- The migration that is half done: its script is committed and its version is not recorded. -/
def Phase.half : Phase → Option Migration
  | .recording migration _ => some migration
  | _ => none

/-- Nothing is half done by a process that goes on. -/
def Settled (s : System δ ι) : Prop := ∀ i, ∀ p ∈ s.starters i, p.phase.half = none

instance [Fintype ι] (s : System δ ι) : Decidable (Settled s) := by unfold Settled; infer_instance

/-! ## The condition -/

/-- A process goes on as it should: it runs a script only if that is the next one by the version
that is recorded, and no other is half done; and a version is recorded without a failure. -/
def Starter.Orderly (s : System δ ι) (fault : Option Fault) (p : Starter) : Prop :=
  (∀ m ∈ p.phase.next, fault = none → (exec m.sql s.db.contents).isOk = true →
    Settled s ∧ s.db.recorded < m.version ∧ ∀ m' ∈ s.seen, s.db.recorded < m'.version →
    m.version ≤ m'.version) ∧
  ∀ m ∈ p.phase.half, fault = none ∧ Fits m.version

/-- The condition: besides, a process comes with new migrations above all that is recorded or half
done, and no process crashes with one half done. -/
def Orderly (s : System δ ι) : Event ι → Prop
  | .start _ migrations => ∀ m ∈ migrations, m ∉ s.seen →
      s.db.recorded < m.version ∧ ∀ j, ∀ p ∈ s.starters j, ∀ m' ∈ p.phase.half,
      m'.version < m.version
  | .step i fault => ∀ p ∈ s.starters i, p.Orderly exec s fault
  | .crash i => ∀ p ∈ s.starters i, p.phase.half = none

instance [Fintype ι] (s : System δ ι) (fault : Option Fault) (p : Starter) :
    Decidable (p.Orderly exec s fault) := by
  unfold Starter.Orderly; infer_instance

instance [Fintype ι] (s : System δ ι) : ∀ e, Decidable (Orderly exec s e)
  | .start _ migrations => inferInstanceAs (Decidable (∀ m ∈ migrations, m ∉ s.seen →
      s.db.recorded < m.version ∧ ∀ j, ∀ p ∈ s.starters j, ∀ m' ∈ p.phase.half,
      m'.version < m.version))
  | .step i fault => inferInstanceAs (Decidable (∀ p ∈ s.starters i, p.Orderly exec s fault))
  | .crash i => inferInstanceAs (Decidable (∀ p ∈ s.starters i, p.phase.half = none))

/-- A process comes with the list of the ones before, and migrations appended to it; the versions
are distinct. -/
def Appended (s : System δ ι) : Event ι → Prop
  | .start _ migrations => s.seen <+: migrations ∧ (migrations.map Migration.version).Nodup
  | _ => True

instance (s : System δ ι) : ∀ e, Decidable (Appended s e)
  | .start _ migrations =>
    inferInstanceAs (Decidable (s.seen <+: migrations ∧ (migrations.map Migration.version).Nodup))
  | .step _ _ => isTrue trivial
  | .crash _ => isTrue trivial

/-! ## What is claimed -/

/-- The recorded version is `v` where the migrations up to `v` are the committed ones. -/
def VersionRight (s : System δ ι) : Prop :=
  ∀ v, v = 0 ∨ v ∈ s.seen.map Migration.version →
    (s.db.recorded = v ↔ ∀ m, m ∈ s.committed ↔ m ∈ s.seen ∧ m.version ≤ v)

/-- Every process has ended. -/
def AtRest (s : System δ ι) : Prop := ∀ i, ∀ p ∈ s.starters i, p.phase.Ended

/-- The scripts, one after the other. -/
def migrate (contents : δ) (migrations : List Migration) : Except PyError δ :=
  migrations.foldlM (fun contents m => exec m.sql contents) contents

/-- The migrations that are not committed, in order. -/
def System.left (s : System δ ι) (migrations : List Migration) : List Migration :=
  (migrations.filter fun m => m ∉ s.committed).insertionSort fun a b => a.version ≤ b.version

variable [DecidableEq ι]

/-- A process that starts alone, whose scripts can be run and which nothing disturbs, returns, and
all is committed. -/
def Completes (s : System δ ι) : Prop :=
  ∀ i migrations contents, s.starters i = none → Appended s (.start i migrations) →
    Orderly exec s (.start i migrations) →
    (∀ m ∈ migrations, Fits m.version) → migrate exec s.db.contents (s.left migrations) =
    .ok contents →
    ∃ n t version, run (System.step exec) s (.start i migrations :: List.replicate n (.step i none))
      = some t ∧
      t.starters i = some ⟨migrations, .returned version⟩ ∧ t.db.contents = contents ∧
      ∀ m ∈ migrations, m ∈ t.committed

/-- Every migration is committed once at most, the version says which ones are, and the next start
completes. -/
structure AppliedOnce (s : System δ ι) : Prop where
  once : s.committed.Nodup
  version : Settled s → VersionRight s
  completes : AtRest s → Completes exec s

/-! ## One step -/

section Step

variable {exec} {p : Starter} {phase : Phase} {db db' : Database δ} {fault : Option Fault}
  {done : List Migration}

/-- The migrations that a process still has to run. -/
def Phase.pending : Phase → List Migration
  | .running pending => pending
  | .recording _ rest => rest
  | _ => []

/-- The process has made sure that there is a version table. -/
def Phase.PastTable : Phase → Prop
  | .reading | .running _ | .recording _ _ | .rereading | .folding _ => True
  | _ => False

theorem mem_pendingAbove {current : Int} {migrations : List Migration} {m : Migration} :
    m ∈ pendingAbove current migrations ↔ m ∈ migrations ∧ current < m.version := by
  unfold pendingAbove
  rw [List.mem_insertionSort, List.mem_filter, decide_eq_true_eq]

/-- **What a step of a process does**: it commits a script, it records a version, or it leaves both
alone. -/
theorem Starter.step_cases (h : p.step exec fault db = some (phase, db', done)) :
    (∃ m rest, p.phase = .running (m :: rest) ∧ phase = .recording m rest ∧ fault = none ∧
      done = [m] ∧
      ∃ contents, exec m.sql db.contents = .ok contents ∧ db' = { db with contents := contents }) ∨
    (∃ m rest, p.phase = .recording m rest ∧ done = [] ∧
      ((phase = .running rest ∧ db' = { db with version := some (some m.version) }) ∨
        (phase.half = none ∧ phase.pending = [] ∧ ¬ phase.PastTable ∧ db' = db ∧
          (fault ≠ none ∨ db.version = none ∨ ¬ Fits m.version)))) ∨
    (p.phase.half = none ∧ phase.half = none ∧ done = [] ∧ db'.recorded = db.recorded ∧
      db'.contents = db.contents ∧
      (db.version ≠ none → db'.version ≠ none) ∧
      (phase.PastTable → p.phase.PastTable ∨ db'.version ≠ none) ∧
      ∀ m ∈ phase.pending, m ∈ p.migrations ∨ m ∈ p.phase.pending) := by
  obtain ⟨migrations, here⟩ := p
  cases here with
  | opening =>
    refine Or.inr (Or.inr ?_)
    simp only [Starter.step] at h
    split at h <;> cases h <;> simp [Phase.half, Phase.pending, Phase.PastTable]
  | creating =>
    refine Or.inr (Or.inr ?_)
    cases fault with
    | some f =>
      cases h
      simp [Phase.half, Phase.pending, Phase.PastTable]
    | none =>
      cases h
      simp [Phase.half, Phase.pending, Phase.PastTable, Database.recorded]
  | reading =>
    refine Or.inr (Or.inr ?_)
    simp only [Starter.step] at h
    split at h
    · cases h
      simp [Phase.half, Phase.pending, Phase.PastTable]
    · split at h
      · cases h
        simp [Phase.half, Phase.pending, Phase.PastTable]
      · cases h
        -- what is pending is part of what the process was given
        refine ⟨rfl, rfl, rfl, rfl, rfl, id, fun _ => Or.inl trivial, fun m hm => ?_⟩
        exact Or.inl (mem_pendingAbove.mp hm).1
  | running pending =>
    cases pending with
    | nil =>
      refine Or.inr (Or.inr ?_)
      cases h
      simp [Phase.half, Phase.pending, Phase.PastTable]
    | cons m rest =>
      simp only [Starter.step] at h
      split at h
      · refine Or.inr (Or.inr ?_)
        cases h
        simp [Phase.half, Phase.pending, Phase.PastTable]
      · next hscript =>
        -- the script has run, so its version is the next thing to write
        refine Or.inl ⟨m, rest, rfl, ?_⟩
        cases fault with
        | some f => cases hscript
        | none =>
          obtain ⟨contents, hexec, rfl⟩ := map_eq_ok.mp hscript
          cases h
          exact ⟨rfl, rfl, rfl, contents, hexec, rfl⟩
  | recording m rest =>
    refine Or.inr (Or.inl ⟨m, rest, rfl, ?_⟩)
    simp only [Starter.step] at h
    split at h
    · next e hset =>
      cases h
      refine ⟨rfl, Or.inr ⟨rfl, rfl, id, rfl, ?_⟩⟩
      -- with a table, a version that fits and no fault, the write succeeds
      by_contra hall
      simp only [not_or, not_not] at hall
      obtain ⟨hfault, hversion, hfits⟩ := hall
      rw [hfault, Database.setVersion, if_neg hversion, if_pos hfits] at hset
      cases hset
    · next hset =>
      cases h
      refine ⟨rfl, Or.inl ⟨rfl, ?_⟩⟩
      cases fault with
      | some f => cases hset
      | none =>
        rw [Database.setVersion] at hset
        split at hset
        · cases hset
        · split at hset <;> cases hset
          rfl
  | rereading =>
    refine Or.inr (Or.inr ?_)
    simp only [Starter.step] at h
    split at h <;> cases h <;> simp [Phase.half, Phase.pending, Phase.PastTable]
  | folding final =>
    refine Or.inr (Or.inr ?_)
    simp only [Starter.step] at h
    split at h
    · split at h <;> cases h <;> simp [Phase.half, Phase.pending, Phase.PastTable]
    · cases h
      simp [Phase.half, Phase.pending, Phase.PastTable]
  | returned version => cases h
  | raised error => cases h
  | crashed => cases h

end Step

/-! ## Every run -/

section Runs

variable {exec} {s t : System δ ι} {e : Event ι}

/-- What holds of the system: there is a version up to which the migrations are committed, and that
is the recorded one unless one process has recorded less than it has run. -/
structure Inv (s : System δ ι) : Prop where
  distinct : (s.seen.map Migration.version).Nodup
  positive : ∀ m ∈ s.seen, 0 < m.version
  recorded : s.db.recorded = 0 ∨ ∃ m ∈ s.seen, m.version = s.db.recorded
  once : s.committed.Nodup
  level : ∃ level, s.db.recorded ≤ level ∧ (∀ m, m ∈ s.committed ↔ m ∈ s.seen ∧ m.version ≤ level) ∧
    (Settled s → level = s.db.recorded) ∧ ∀ i, ∀ p ∈ s.starters i, ∀ m ∈ p.phase.half, m ∈ s.seen ∧
    m.version = level
  lone : ∀ i, ∀ p ∈ s.starters i, p.phase.half ≠ none → ∀ j, ∀ q ∈ s.starters j,
    q.phase.half ≠ none → i = j
  known : ∀ i, ∀ p ∈ s.starters i, ∀ m, m ∈ p.migrations ∨ m ∈ p.phase.pending → m ∈ s.seen
  table : ∀ i, ∀ p ∈ s.starters i, p.phase.PastTable → s.db.version ≠ none

omit [DecidableEq ι] in
theorem inv_init (contents : δ) : Inv (System.init contents : System δ ι) where
  distinct := List.nodup_nil
  positive := by
    intro m hm
    cases hm
  recorded := Or.inl rfl
  once := List.nodup_nil
  level := by
    refine ⟨0, le_refl 0, fun m => ?_, fun _ => rfl, ?_⟩
    · exact iff_of_false List.not_mem_nil fun h => List.not_mem_nil h.1
    · intro i p hp
      cases hp
  lone := by
    intro i p hp
    cases hp
  known := by
    intro i p hp
    cases hp
  table := by
    intro i p hp
    cases hp

variable {i : ι} {m : Migration} {migrations : List Migration}

/-- No process but the one that goes on is half done more or less than before. -/
theorem settled_update {p : Starter} {starters : ι → Option Starter} {db : Database δ}
    {seen committed : List Migration}
    (h : Settled (⟨db, Function.update starters i (some p), seen, committed⟩ : System δ ι)) :
    p.phase.half = none ∧ ∀ j, j ≠ i → ∀ q ∈ starters j, q.phase.half = none := by
  constructor
  · exact h i p (mem_update.mpr (Or.inl ⟨rfl, rfl⟩))
  · intro j hj q hq
    exact h j q (mem_update.mpr (Or.inr ⟨hj, hq⟩))

omit [DecidableEq ι] in
theorem Inv.recorded_nonneg (h : Inv s) : 0 ≤ s.db.recorded := by
  rcases h.recorded with hzero | ⟨m, hm, hversion⟩
  · omega
  · have := h.positive m hm
    omega

omit [DecidableEq ι] in
theorem Inv.eq_of_version (h : Inv s) {m' : Migration} (hm : m ∈ s.seen) (hm' : m' ∈ s.seen)
    (heq : m.version = m'.version) :
    m = m' :=
  List.inj_on_of_nodup_map h.distinct hm hm' heq

omit [DecidableEq ι] in
/-- Where nothing is half done, the committed migrations are those up to the recorded version. -/
theorem Inv.committed_iff (h : Inv s) (hsettled : Settled s) (m : Migration) :
    m ∈ s.committed ↔ m ∈ s.seen ∧ m.version ≤ s.db.recorded := by
  obtain ⟨level, -, hcommitted, hlevel, -⟩ := h.level
  rw [hcommitted, hlevel hsettled]

omit [DecidableEq ι] in
theorem Inv.versionRight (h : Inv s) (hsettled : Settled s) : VersionRight s := by
  intro v hv
  constructor
  · rintro rfl
    exact h.committed_iff hsettled
  · intro hall
    have hiff : ∀ m ∈ s.seen, m.version ≤ s.db.recorded ↔ m.version ≤ v := by
      intro m hm
      have h' := (h.committed_iff hsettled m).symm.trans (hall m)
      simpa [hm] using h'
    have hnonneg := h.recorded_nonneg
    -- each of the two is 0 or the version of a migration, so neither is above the other
    have hle : s.db.recorded ≤ v := by
      rcases h.recorded with hzero | ⟨m, hm, hversion⟩
      · rcases hv with rfl | hv
        · omega
        · obtain ⟨m, hm, rfl⟩ := List.mem_map.mp hv
          have := h.positive m hm
          omega
      · have := (hiff m hm).mp (by omega)
        omega
    have hge : v ≤ s.db.recorded := by
      rcases hv with rfl | hv
      · exact hnonneg
      · obtain ⟨m, hm, rfl⟩ := List.mem_map.mp hv
        exact (hiff m hm).mpr (le_refl _)
    omega

/-- A process comes. -/
theorem Inv.start (h : Inv s) (hnone : s.starters i = none)
    (happended : Appended s (.start i migrations))
    (horderly : Orderly exec s (.start i migrations)) :
    Inv { s with
      starters := Function.update s.starters i (some ⟨migrations, .opening⟩)
      seen := migrations } := by
  obtain ⟨hseen, hdistinct⟩ := happended
  have hsub := hseen.subset
  have hold : ∀ j, ∀ q ∈ Function.update s.starters i (some ⟨migrations, .opening⟩) j,
      q = ⟨migrations, .opening⟩ ∨ q ∈ s.starters j := by
    intro j q hq
    rcases mem_update.mp hq with ⟨-, rfl⟩ | ⟨-, hq⟩
    · exact Or.inl rfl
    · exact Or.inr hq
  have hhalf : ∀ j, ∀ q ∈ Function.update s.starters i (some ⟨migrations, .opening⟩) j,
      q.phase.half ≠ none → q ∈ s.starters j := by
    intro j q hq hne
    rcases hold j q hq with rfl | hq
    · exact absurd rfl hne
    · exact hq
  obtain ⟨level, hle, hcommitted, hlevel, hhalves⟩ := h.level
  refine ⟨hdistinct, ?_, ?_, h.once, ⟨level, hle, ?_, ?_, ?_⟩, ?_, ?_, ?_⟩
  · intro m hm
    by_cases hmem : m ∈ s.seen
    · exact h.positive m hmem
    · have := (horderly m hm hmem).1
      have := h.recorded_nonneg
      omega
  · rcases h.recorded with hzero | ⟨m, hm, hversion⟩
    · exact Or.inl hzero
    · exact Or.inr ⟨m, hsub hm, hversion⟩
  · intro m
    show m ∈ s.committed ↔ _
    rw [hcommitted]
    constructor
    · rintro ⟨hm, hversion⟩
      exact ⟨hsub hm, hversion⟩
    · rintro ⟨hm, hversion⟩
      refine ⟨?_, hversion⟩
      by_contra hmem
      -- a new migration is above all that is committed
      obtain ⟨habove, hbelow⟩ := horderly m hm hmem
      by_cases hsettled : Settled s
      · have := hlevel hsettled
        omega
      · simp only [Settled, not_forall] at hsettled
        obtain ⟨j, q, hq, hne⟩ := hsettled
        obtain ⟨m', hm'⟩ := Option.ne_none_iff_exists'.mp hne
        have hlt := hbelow j q hq m' hm'
        have heq := (hhalves j q hq m' hm').2
        omega
  · intro hsettled
    refine hlevel fun j q hq => ?_
    by_cases hj : j = i
    · subst hj
      rw [hnone] at hq
      cases hq
    · exact (settled_update hsettled).2 j hj q hq
  · intro j q hq m hm
    have hne : q.phase.half ≠ none := by
      rw [hm]
      exact Option.some_ne_none m
    obtain ⟨hmem, hversion⟩ := hhalves j q (hhalf j q hq hne) m hm
    exact ⟨hsub hmem, hversion⟩
  · intro j q hq hne j' q' hq' hne'
    exact h.lone j q (hhalf j q hq hne) hne j' q' (hhalf j' q' hq' hne') hne'
  · intro j q hq m hm
    rcases hold j q hq with rfl | hq
    · exact hm.resolve_right List.not_mem_nil
    · exact hsub (h.known j q hq m hm)
  · intro j q hq hpast
    rcases hold j q hq with rfl | hq
    · cases hpast
    · exact h.table j q hq hpast

/-- A process goes on, and the migrations and the recorded version stay as they are. -/
theorem Inv.goOn (h : Inv s) {p : Starter} {phase : Phase} {db : Database δ} (hp : p ∈ s.starters i)
    (hhere : p.phase.half = none) (hthere : phase.half = none)
    (hrecorded : db.recorded = s.db.recorded) (htable : s.db.version ≠ none → db.version ≠ none)
    (hpast : phase.PastTable → p.phase.PastTable ∨ db.version ≠ none)
    (hpending : ∀ m ∈ phase.pending, m ∈ p.migrations ∨ m ∈ p.phase.pending) :
    Inv { s with
        db := db, starters := Function.update s.starters i (some { p with phase := phase }) } := by
  have hhalf : ∀ j, ∀ q ∈ Function.update s.starters i (some { p with phase := phase }) j,
    q.phase.half ≠ none → q ∈ s.starters j := by
    intro j q hq hne
    rcases mem_update.mp hq with ⟨-, rfl⟩ | ⟨-, hq⟩
    · exact absurd hthere hne
    · exact hq
  obtain ⟨level, hle, hcommitted, hlevel, hhalves⟩ := h.level
  refine ⟨h.distinct, h.positive, ?_, h.once, ⟨level, ?_, hcommitted, ?_, ?_⟩, ?_, ?_, ?_⟩
  · show db.recorded = 0 ∨ ∃ m ∈ s.seen, m.version = db.recorded
    rw [hrecorded]
    exact h.recorded
  · show db.recorded ≤ level
    omega
  · intro hsettled
    show level = db.recorded
    rw [hrecorded]
    refine hlevel fun j q hq => ?_
    by_cases hj : j = i
    · subst hj
      obtain rfl := Option.some.inj (hp.symm.trans hq)
      exact hhere
    · exact (settled_update hsettled).2 j hj q hq
  · intro j q hq m hm
    refine hhalves j q (hhalf j q hq ?_) m hm
    rw [hm]
    exact Option.some_ne_none m
  · intro j q hq hne j' q' hq' hne'
    exact h.lone j q (hhalf j q hq hne) hne j' q' (hhalf j' q' hq' hne') hne'
  · intro j q hq m hm
    rcases mem_update.mp hq with ⟨rfl, rfl⟩ | ⟨-, hq⟩
    · rcases hm with hm | hm
      · exact h.known j p hp m (Or.inl hm)
      · exact h.known j p hp m (hpending m hm)
    · exact h.known j q hq m hm
  · intro j q hq hpastq
    rcases mem_update.mp hq with ⟨rfl, rfl⟩ | ⟨-, hq⟩
    · rcases hpast hpastq with hpast | hpast
      · exact htable (h.table j p hp hpast)
      · exact hpast
    · exact htable (h.table j q hq hpastq)

/-- A process commits the script of the migration that is next. -/
theorem Inv.commit (h : Inv s) {p : Starter} {rest : List Migration} {contents : δ}
    (hp : p ∈ s.starters i) (hphase : p.phase = .running (m :: rest)) (hsettled : Settled s)
    (hnext : s.db.recorded < m.version)
    (hleast : ∀ m' ∈ s.seen, s.db.recorded < m'.version → m.version ≤ m'.version) :
    Inv { s with db := { s.db with contents := contents },
                 starters :=
                 Function.update s.starters i (some { p with phase := .recording m rest }),
                 committed := s.committed ++ [m] } := by
  have hpending : ∀ m', m' ∈ p.migrations ∨ m' = m ∨ m' ∈ rest → m' ∈ s.seen := by
    intro m' hm'
    refine h.known i p hp m' ?_
    rw [hphase]
    exact hm'.imp_right List.mem_cons.mpr
  have hm : m ∈ s.seen := hpending m (Or.inr (Or.inl rfl))
  have hcommitted := h.committed_iff hsettled
  have hhalf : ∀ j, ∀ q ∈ Function.update s.starters i
      (some { p with phase := .recording m rest }) j, q.phase.half ≠ none →
        j = i ∧ q = { p with phase := .recording m rest } := by
    intro j q hq hne
    rcases mem_update.mp hq with heq | ⟨-, hq⟩
    · exact heq
    · exact absurd (hsettled j q hq) hne
  -- the level is the version of `m`, which the table does not have yet
  refine ⟨h.distinct, h.positive, h.recorded, ?_, ⟨m.version, hnext.le, ?_, ?_, ?_⟩, ?_, ?_, ?_⟩
  · show (s.committed ++ [m]).Nodup
    refine List.nodup_append.mpr ⟨h.once, List.nodup_singleton m, ?_⟩
    intro m' hm' m'' hm'' heq
    rw [heq, List.mem_singleton.mp hm''] at hm'
    have := ((hcommitted m).mp hm').2
    omega
  · intro m'
    show m' ∈ s.committed ++ [m] ↔ m' ∈ s.seen ∧ m'.version ≤ m.version
    rw [List.mem_append, List.mem_singleton, hcommitted]
    constructor
    · rintro (⟨hm', hle⟩ | rfl)
      · exact ⟨hm', by omega⟩
      · exact ⟨hm, le_refl _⟩
    · rintro ⟨hm', hle⟩
      by_cases hold : m'.version ≤ s.db.recorded
      · exact Or.inl ⟨hm', hold⟩
      · have := hleast m' hm' (by omega)
        exact Or.inr (h.eq_of_version hm' hm (by omega))
  · intro hnot
    have := (settled_update hnot).1
    cases this
  · intro j q hq m' hm'
    have hne : q.phase.half ≠ none := by
      rw [hm']
      exact Option.some_ne_none m'
    obtain ⟨-, rfl⟩ := hhalf j q hq hne
    obtain rfl := Option.some.inj hm'
    exact ⟨hm, rfl⟩
  · intro j q hq hne j' q' hq' hne'
    rw [(hhalf j q hq hne).1, (hhalf j' q' hq' hne').1]
  · intro j q hq m' hm'
    rcases mem_update.mp hq with ⟨rfl, rfl⟩ | ⟨-, hq⟩
    · exact hpending m' (hm'.imp_right Or.inr)
    · exact h.known j q hq m' hm'
  · intro j q hq hpast
    rcases mem_update.mp hq with ⟨rfl, rfl⟩ | ⟨-, hq⟩
    · refine h.table j p hp ?_
      rw [hphase]
      trivial
    · exact h.table j q hq hpast

/-- A process records the version of the migration that is half done. -/
theorem Inv.record (h : Inv s) {p : Starter} {rest : List Migration} (hp : p ∈ s.starters i)
    (hphase : p.phase = .recording m rest) :
    Inv { s with db := { s.db with version := some (some m.version) },
                 starters :=
                 Function.update s.starters i (some { p with phase := .running rest }) } := by
  have hhere : p.phase.half = some m := by
    rw [hphase]
    rfl
  have hne : p.phase.half ≠ none := by
    rw [hhere]
    exact Option.some_ne_none m
  have hsettled : ∀ j, ∀ q ∈ Function.update s.starters i (some { p with phase := .running rest })
      j, q.phase.half = none := by
    intro j q hq
    rcases mem_update.mp hq with ⟨-, rfl⟩ | ⟨hj, hq⟩
    · rfl
    · by_contra hq'
      exact hj (h.lone j q hq hq' i p hp hne)
  obtain ⟨level, hle, hcommitted, -, hhalves⟩ := h.level
  obtain ⟨hm, rfl⟩ := hhalves i p hp m hhere
  refine ⟨h.distinct, h.positive, Or.inr ⟨m, hm, rfl⟩, h.once,
    ⟨m.version, le_refl _, hcommitted, fun _ => rfl, ?_⟩, ?_, ?_, ?_⟩
  · intro j q hq m' hm'
    rw [hsettled j q hq] at hm'
    cases hm'
  · intro j q hq hq'
    exact absurd (hsettled j q hq) hq'
  · intro j q hq m' hm'
    rcases mem_update.mp hq with ⟨rfl, rfl⟩ | ⟨-, hq⟩
    · refine h.known j p hp m' ?_
      rw [hphase]
      exact hm'
    · exact h.known j q hq m' hm'
  · intro j q hq hpast hnone
    cases hnone

/-- **What a step keeps** where the condition holds. -/
theorem Inv.step (h : Inv s) (happended : Appended s e) (horderly : Orderly exec s e)
    (hstep : System.step exec s e = some t) : Inv t := by
  cases e with
  | start i migrations =>
    simp only [System.step] at hstep
    split at hstep
    · cases hstep
    · next hnone =>
      cases hstep
      exact h.start hnone happended horderly
  | crash i =>
    simp only [System.step] at hstep
    obtain ⟨p, hp, rfl⟩ := Option.map_eq_some_iff.mp hstep
    refine h.goOn hp (horderly p hp) rfl rfl id ?_ ?_
    · intro hpast
      cases hpast
    · intro m hm
      cases hm
  | step i fault =>
    simp only [System.step] at hstep
    obtain ⟨p, hp, hrest⟩ := Option.bind_eq_some_iff.mp hstep
    obtain ⟨⟨phase, db, done⟩, hgo, rfl⟩ := Option.map_eq_some_iff.mp hrest
    have hcond := horderly p hp
    rcases Starter.step_cases hgo with ⟨m, rest, hphase, rfl, rfl, rfl, contents, hexec, rfl⟩ |
      ⟨m, rest, hphase, rfl, hset⟩ | ⟨hhere, hthere, rfl, hrecorded, -, htable, hpast, hpending⟩
    · have hnext : m ∈ p.phase.next := by
        rw [hphase]
        rfl
      obtain ⟨hsettled, hnext, hleast⟩ := hcond.1 m hnext rfl (by rw [hexec]; rfl)
      exact h.commit hp hphase hsettled hnext hleast
    · have hhalf : m ∈ p.phase.half := by
        rw [hphase]
        rfl
      obtain ⟨hfault, hfits⟩ := hcond.2 m hhalf
      rw [List.append_nil]
      rcases hset with ⟨rfl, rfl⟩ | ⟨-, -, -, rfl, hbad⟩
      · exact h.record hp hphase
      · exfalso
        have htable := h.table i p hp (by rw [hphase]; trivial)
        tauto
    · rw [List.append_nil]
      exact h.goOn hp hhere hthere hrecorded htable hpast hpending

/-! ## The next start -/

omit [DecidableEq ι] in
theorem AtRest.settled (h : AtRest s) : Settled s := by
  intro i p hp
  have hended := h i p hp
  unfold Phase.half
  split
  · next hphase =>
    rw [hphase] at hended
    cases hended
  · rfl

theorem migrate_cons {contents contents' : δ} {pending : List Migration} :
    migrate exec contents (m :: pending) = .ok contents' ↔
      ∃ d, exec m.sql contents = .ok d ∧ migrate exec d pending = .ok contents' := by
  unfold migrate
  rw [List.foldlM_cons]
  exact bind_eq_ok

/-- A process that goes on without a failure. -/
theorem step_alone {p : Starter} {phase : Phase} {db : Database δ} {done : List Migration}
    (hp : s.starters i = some p) (h : p.step exec none s.db = some (phase, db, done)) :
    System.step exec s (.step i none) = some { s with
      db := db, starters := Function.update s.starters i (some { p with phase := phase }),
          committed := s.committed ++ done } := by
  simp only [System.step, hp, Option.bind_some, h, Option.map_some]

variable (exec) in
/-- A process that starts alone reads the recorded version. -/
theorem run_reads (migrations : List Migration) (hnone : s.starters i = none) :
    ∃ t, run (System.step exec) s [.start i migrations, .step i none, .step i none, .step i none] =
    some t ∧
      t.starters i = some ⟨migrations, if pendingAbove s.db.recorded migrations = []
        then .returned s.db.recorded else .running (pendingAbove s.db.recorded migrations)⟩ ∧
      t.db.contents = s.db.contents ∧ t.db.version ≠ none ∧ t.committed = s.committed := by
  rw [run_cons]
  simp only [System.step, hnone, Option.bind_some]
  rw [run_cons, step_alone (Function.update_self ..) rfl, Option.bind_some]
  rw [run_cons, step_alone (Function.update_self ..) rfl, Option.bind_some]
  have hreads : Starter.step exec ⟨migrations, .reading⟩ none
    (⟨some (s.db.version.getD none), s.db.contents⟩ : Database δ) =
      some (if pendingAbove s.db.recorded migrations = [] then .returned s.db.recorded
        else .running (pendingAbove s.db.recorded migrations),
        ⟨some (s.db.version.getD none), s.db.contents⟩, []) := by
    show (if pendingAbove s.db.recorded migrations = [] then _ else _) = _
    split <;> rfl
  rw [run_cons, step_alone (Function.update_self ..) hreads, Option.bind_some]
  exact ⟨_, rfl, Function.update_self .., rfl, Option.some_ne_none _, by simp⟩

/-- A process that goes on alone runs all that is pending: two steps for each migration. -/
theorem run_pending {i : ι} {migrations : List Migration} : ∀ {pending : List Migration}
    {s : System δ ι} {contents : δ},
    s.starters i = some ⟨migrations, .running pending⟩ → s.db.version ≠ none →
    (∀ m ∈ pending, Fits m.version) →
    migrate exec s.db.contents pending = .ok contents →
    ∃ t, run (System.step exec) s (List.replicate (2 * pending.length) (.step i none)) = some t ∧
      t.starters i = some ⟨migrations, .running []⟩ ∧ t.db.contents = contents ∧
      ∀ m, m ∈ t.committed ↔ m ∈ s.committed ∨ m ∈ pending
  | [], s, contents, hp, _, _, hmigrate => by
    cases hmigrate
    exact ⟨s, rfl, hp, rfl, by simp⟩
  | m :: pending, s, contents, hp, htable, hfits, hmigrate => by
    obtain ⟨d, hexec, hmigrate⟩ := migrate_cons.mp hmigrate
    have hscript : Starter.step exec ⟨migrations, .running (m :: pending)⟩ none s.db =
        some (.recording m pending, { s.db with contents := d }, [m]) := by
      simp only [Starter.step, Database.executeScript, hexec]
      rfl
    have hset : Starter.step exec ⟨migrations, .recording m pending⟩ none
      ({ s.db with contents := d } : Database δ) =
        some (.running pending, ⟨some (some m.version), d⟩, []) := by
      simp only [Starter.step, Database.setVersion]
      rw [if_neg htable, if_pos (hfits m List.mem_cons_self)]
    have hlength : 2 * (m :: pending).length = 2 * pending.length + 1 + 1 := by
      rw [List.length_cons]
      omega
    rw [hlength, List.replicate_succ, List.replicate_succ, run_cons, step_alone hp hscript,
      Option.bind_some, run_cons, step_alone (Function.update_self ..) hset, Option.bind_some]
    obtain ⟨t, hrun, hrunning, hcontents, hcommitted⟩ := run_pending
      (s := { s with
        db := ⟨some (some m.version), d⟩
        starters :=
          Function.update (Function.update s.starters i (some ⟨migrations, .recording m pending⟩)) i
          (some ⟨migrations, .running pending⟩)
        committed := s.committed ++ [m] ++ [] })
      (Function.update_self ..) (Option.some_ne_none _)
        (fun m' hm' => hfits m' (List.mem_cons_of_mem _ hm')) hmigrate
    refine ⟨t, hrun, hrunning, hcontents, fun m' => ?_⟩
    rw [hcommitted m']
    simp [or_assoc]

variable (exec) in
/-- A process that has nothing left to run returns. -/
theorem run_returns (hp : s.starters i = some ⟨migrations, .running []⟩) :
    ∃ t, run (System.step exec) s (List.replicate 3 (.step i none)) = some t ∧
      t.starters i = some ⟨migrations, .returned s.db.recorded⟩ ∧ t.db = s.db ∧
      t.committed = s.committed := by
  show ∃ t, run (System.step exec) s [.step i none, .step i none, .step i none] = some t ∧ _
  rw [run_cons, step_alone hp rfl, Option.bind_some, run_cons,
    step_alone (Function.update_self ..) rfl, Option.bind_some,
    run_cons, step_alone (Function.update_self ..) rfl, Option.bind_some]
  exact ⟨_, rfl, Function.update_self .., rfl, by simp⟩

omit [DecidableEq ι] in
/-- What is pending is what is not committed. -/
theorem Inv.pending_eq (h : Inv s) (hsettled : Settled s)
    (horderly : Orderly exec s (.start i migrations)) :
    pendingAbove s.db.recorded migrations = s.left migrations := by
  unfold pendingAbove System.left
  congr 1
  refine List.filter_congr fun m hm => decide_eq_decide.mpr ?_
  rw [h.committed_iff hsettled]
  by_cases hseen : m ∈ s.seen
  · simp [hseen]
  · have := (horderly m hm hseen).1
    simp [hseen]
    omega

/-- **The next start completes.** -/
theorem Inv.completes (h : Inv s) (hrest : AtRest s) : Completes exec s := by
  intro i migrations contents hnone _ horderly hfits hleft
  have hpending := h.pending_eq hrest.settled horderly
  have hmem : ∀ m, m ∈ s.left migrations ↔ m ∈ migrations ∧ m ∉ s.committed := by
    intro m
    unfold System.left
    rw [List.mem_insertionSort, List.mem_filter, decide_eq_true_eq]
  obtain ⟨t, hrun, hstarter, hcontents, htable, hcommitted⟩ := run_reads exec migrations hnone
  rw [hpending] at hstarter
  by_cases hnil : s.left migrations = []
  · rw [if_pos hnil] at hstarter
    rw [hnil] at hleft
    cases hleft
    refine ⟨3, t, _, hrun, hstarter, hcontents, fun m hm => ?_⟩
    rw [hcommitted]
    by_contra hnot
    have := (hmem m).mpr ⟨hm, hnot⟩
    rw [hnil] at this
    cases this
  · rw [if_neg hnil] at hstarter
    have hfits' : ∀ m ∈ s.left migrations, Fits m.version := fun m hm => hfits m ((hmem m).mp hm).1
    rw [← hcontents] at hleft
    obtain ⟨u, hrun', hstarter', hcontents', hcommitted'⟩ :=
      run_pending hstarter htable hfits' hleft
    obtain ⟨v, hrun'', hstarter'', hdb, hcommitted''⟩ := run_returns exec hstarter'
    refine ⟨3 + (2 * (s.left migrations).length + 3), v, _, ?_, hstarter'', ?_, fun m hm => ?_⟩
    · rw [List.replicate_add, List.replicate_add, ← List.cons_append, run_append]
      show (run (System.step exec) s [.start i migrations, .step i none, .step i none,
        .step i none]).bind _ = _
      rw [hrun, Option.bind_some, run_append, hrun', Option.bind_some, hrun'']
    · rw [hdb, hcontents']
    · rw [hcommitted'', hcommitted', hcommitted, hmem]
      tauto

end Runs

/-- **In which runs every migration is applied once.** -/
theorem run_applied_once {contents : δ} {es : List (Event ι)}
    (happended : Along (System.step exec) Appended (System.init contents) es)
    (horderly : Along (System.step exec) (Orderly exec) (System.init contents) es) :
    ∀ fs t, fs <+: es → run (System.step exec) (System.init contents) fs = some t →
        AppliedOnce exec t := by
  intro fs t hfs hrun
  have hboth := along_and.mpr ⟨along_initial hfs happended, along_initial hfs horderly⟩
  have hinv : Inv t := run_invariant_along (fun e _ s u h hQ hstep => h.step hQ.1 hQ.2 hstep)
    (inv_init contents) hboth hrun
  exact ⟨hinv.once, hinv.versionRight, hinv.completes⟩

/-! ## A column -/

/-- Of the database, the columns of a table; a script adds one. -/
def addColumn (sql : Str) (columns : List Str) : Except PyError (List Str) :=
  if sql ∈ columns then .error (.raised (lit "OperationalError") (lit "duplicate column name"))
    else .ok (columns ++ [sql])

def addA : Migration := ⟨1, lit "ALTER TABLE items ADD COLUMN a TEXT"⟩

def addB : Migration := ⟨2, lit "ALTER TABLE items ADD COLUMN b TEXT"⟩

/-- A process that crashes before it has run anything, one that goes through, and one with a longer
list. -/
def orderly : List (Event (Fin 3)) :=
  [.start 0 [addA]] ++ List.replicate 3 (.step 0 none) ++ [.crash 0] ++
  [.start 1 [addA]] ++ List.replicate 8 (.step 1 none) ++
  [.start 2 [addA, addB]] ++ List.replicate 8 (.step 2 none)

theorem run_applied_once_orderly : Along (System.step addColumn) Appended (System.init []) orderly ∧
    Along (System.step addColumn) (Orderly addColumn) (System.init []) orderly ∧
    ∀ fs t, fs <+: orderly → run (System.step addColumn) (System.init []) fs = some t →
        AppliedOnce addColumn t := by
  have happended : Along (System.step addColumn) Appended (System.init []) orderly := by
    decide +kernel
  have horderly : Along (System.step addColumn) (Orderly addColumn) (System.init []) orderly := by
    decide +kernel
  exact ⟨happended, horderly, run_applied_once addColumn happended horderly⟩

/-- A process that crashes between a script and its version. -/
def halfDone : List (Event Bool) := [.start true [addA]] ++ List.replicate 4 (.step true none) ++
    [.crash true]

/-- The version is 0 and the script is committed, and the next start fails on it. -/
theorem not_applied_once :
    (¬ ∀ es : List (Event Bool), Along (System.step addColumn) Appended (System.init []) es →
      ∀ fs t, fs <+: es → run (System.step addColumn) (System.init []) fs = some t →
      AppliedOnce addColumn t) ∧
    (run (System.step addColumn) (System.init [])
      (halfDone ++ [.start false [addA]] ++ List.replicate 4 (.step false none))).map
      (fun s => (s.starters false).map Starter.phase) =
      some (some (.raised (.raised (lit "OperationalError") (lit "duplicate column name")))) := by
  refine ⟨fun h => ?_, by decide +kernel⟩
  have happended : Along (System.step addColumn) Appended (System.init []) halfDone := by
    decide +kernel
  obtain ⟨t, ht⟩ : ∃ t, run (System.step addColumn) (System.init []) halfDone = some t :=
    Option.isSome_iff_exists.mp (by decide +kernel)
  have hfacts : (run (System.step addColumn) (System.init []) halfDone).map
      (fun s => (s.db.recorded, s.committed, decide (Settled s))) = some (0, [addA], true) := by
        decide +kernel
  rw [ht] at hfacts
  simp only [Option.map_some, Option.some.injEq, Prod.mk.injEq, decide_eq_true_eq] at hfacts
  obtain ⟨hrecorded, hcommitted, hsettled⟩ := hfacts
  have honce := h halfDone happended halfDone t List.prefix_rfl ht
  have hversion :=
    ((honce.version hsettled 0 (Or.inl rfl)).mp hrecorded addA).mp
    (by rw [hcommitted]; exact List.mem_cons_self)
  exact absurd hversion.2 (by decide)

end Db
