import Msb.Conversation.Verified

/-!
# Failures that are rolled back

A contract with a rollback should never fail and leave its artifacts as they are: an execution that
does not succeed ends `ROLLED_BACK`, with the restore confirmed, or reports that the rollback itself
has failed.

The rollback follows the predicates, and only these. A runner that crashes, and a report that fails
one of the checks, end in a plain `FAILED` with nothing restored.

* `endsWell_iff` — an execution ends well where the report passes the checks
-/

namespace Conversation

open Py Ledger

section

variable {P : Platform} {σ : Type} {sys : System σ} {lib : ExecLib} {req : Request}
  {contract : PyVal} {w w' : World σ}
  {result : ExecutionResult} {plan : Plan} {report : Report} {head : Option Str} {fs fs' : σ}
  {outcome : Outcome}

/-! ## The confirmation of `file_delete` -/

/-- **What is confirmed**: none of the artifacts is there any more. -/
theorem fileDelete_confirmed {artifacts : List PyVal} {root : Path} {detail : Str}
    (h : fileDelete sys lib artifacts root fs = (.ok (true, detail), fs')) :
    ∃ base, sys.resolve fs root = .ok base ∧ ∀ a ∈ artifacts, stillThere sys fs' base a =
        .ok false := by
  unfold fileDelete at h
  cases hbase : sys.resolve fs root with
  | error e =>
    rw [hbase] at h
    cases h
  | ok base =>
    rw [hbase] at h
    dsimp only at h
    rcases hdelete : deleteArtifacts sys base artifacts 0 fs with ⟨e | art | removed, fs₁⟩
      <;> rw [hdelete] at h
    · cases h
    · cases h
    dsimp only at h
    cases hchecked : artifacts.mapM fun a => (stillThere sys fs₁ base a).map fun there =>
      (a, there) with
    | error e =>
      rw [hchecked] at h
      cases h
    | ok checked =>
      rw [hchecked] at h
      dsimp only at h
      by_cases hremaining : ((checked.filter Prod.snd).map Prod.fst).isEmpty = true
      · rw [if_pos hremaining] at h
        obtain ⟨-, rfl⟩ := Prod.mk.inj h
        refine ⟨base, rfl, fun a ha => ?_⟩
        obtain ⟨⟨a', there⟩, hmem, hone⟩ := exists_of_mapM_eq_ok hchecked ha
        obtain ⟨there', hthere, heq⟩ := map_eq_ok.mp hone
        obtain ⟨rfl, rfl⟩ := Prod.mk.inj heq
        have hnone : checked.filter Prod.snd = [] := by simpa using hremaining
        have hfalse : there' = false := by simpa using List.filter_eq_nil_iff.mp hnone _ hmem
        rw [hthere, hfalse]
      · rw [if_neg hremaining] at h
        cases h

/-- The rollback of a `file_delete`. -/
theorem runRollback_fileDelete {rollback : PyVal} {artifacts : List PyVal} {root : Path}
    {detail : Str} (hkind : isText (field rollback "kind") (lit "file_delete") = true)
    (h : runRollback sys lib rollback artifacts root head fs = (.ok (true, detail), fs')) :
    ∃ base, sys.resolve fs root = .ok base ∧ ∀ a ∈ artifacts, stillThere sys fs' base a =
        .ok false := by
  unfold runRollback at h
  dsimp only at h
  rw [if_pos hkind] at h
  exact fileDelete_confirmed h

/-! ## Ends -/

/-- A rollback of what the runner reports has been run, and this is what it has come to. -/
def Attempted (sys : System σ) (lib : ExecLib) (req : Request) (contract : PyVal) (w : World σ)
    (confirmed : Bool) (fs' : σ) : Prop :=
  ∃ plan head report fs, Reported sys lib req contract w plan head report fs ∧ ∃ fs₁ detail,
    runRollback sys lib (field contract "rollback") report.artifacts req.outputRoot head fs₁ =
    (.ok (confirmed, detail), fs') ∧
      (confirmed = true → isText (field (field contract "rollback") "kind")
        (lit "file_delete") = true →
        ∃ base, sys.resolve fs₁ req.outputRoot = .ok base ∧ ∀ a ∈ report.artifacts,
        stillThere sys fs' base a = .ok false)

/-- The ends that leave nothing behind unsaid. -/
inductive GoodEnd (sys : System σ) (lib : ExecLib) (req : Request) (contract : PyVal) (w : World σ)
    (fs' : σ) : ExecStatus → Option FailureKind → Prop where
  | verified (kind : Option FailureKind) : GoodEnd sys lib req contract w fs' .verified kind
  | submitted (kind : Option FailureKind) : GoodEnd sys lib req contract w fs' .submitted kind
  | rolledBack (kind : Option FailureKind) (h : Attempted sys lib req contract w true fs') :
      GoodEnd sys lib req contract w fs' .rolledBack kind
  | incident (h : Attempted sys lib req contract w false fs') :
      GoodEnd sys lib req contract w fs' .failed (some .rollbackFailed)

/-- The runner reports, and its report passes the checks. -/
def Recoverable (sys : System σ) (lib : ExecLib) (req : Request) (contract : PyVal)
    (w : World σ) : Prop :=
  ∃ plan head report fs, Reported sys lib req contract w plan head report fs ∧
    Passes sys lib req plan report fs

/-- An execution from the report on. -/
theorem executeContract_of_reported (h : Reported sys lib req contract w plan head report fs) :
    executeContract P sys lib req contract w =
      match judge P sys lib req plan report head fs with
      | (.error e, fs') => (.error e, { w with fs := fs' })
      | (.ok outcome, fs') =>
        finalize P sys lib req contract plan.rollback outcome report { w with fs := fs' } := by
  obtain ⟨hplan, fs₀, raw, hhead, hrunner, hreport⟩ := h
  unfold executeContract
  rw [hplan]
  dsimp only
  rw [hhead]
  dsimp only
  unfold runContract
  rw [hrunner]
  dsimp only
  rw [hreport]
  dsimp only
  rcases judge P sys lib req plan report head fs with ⟨e | outcome, fs'⟩ <;> rfl

/-- A contract that declares a rollback has one that is run. -/
theorem PlanOf.truthy_rollback (h : PlanOf lib req contract plan)
    (hrollback : isNull (field contract "rollback") = false) : truthy plan.rollback = true := by
  have hnil := h.accepted.rollback
  unfold rollbackErrors at hnil
  dsimp only at hnil
  rw [hrollback, if_neg Bool.false_ne_true] at hnil
  by_cases hdict : isDict (field contract "rollback") = false
  · rw [if_pos hdict] at hnil
    cases hnil
  rw [if_neg hdict] at hnil
  by_cases hkind : isOneOf (field (field contract "rollback") "kind")
    ["git_revert", "file_delete"] = false
  · rw [if_pos hkind] at hnil
    cases hnil
  rw [h.rollback]
  cases hvalue : field contract "rollback" with
  | dict items =>
    rw [hvalue] at hkind
    cases items with
    | nil => exact absurd rfl hkind
    | cons item items => rfl
  | _ =>
    rw [hvalue] at hdict
    exact absurd rfl hdict

/-- What passes the checks ends well. -/
theorem goodEnd_of_passes (hreported : Reported sys lib req contract w plan head report fs)
    (hrollback : isNull (field contract "rollback") = false)
    (hpass : Passes sys lib req plan report fs)
    (h : Judged P sys lib req plan report head fs outcome fs') :
    GoodEnd sys lib req contract w fs' outcome.status outcome.failureKind := by
  have hplan := planOf_eq_ok hreported.1
  cases h with
  | refused hfail => exact absurd hpass hfail
  | submitted => exact .submitted none
  | settled _ _ hsettled =>
    cases hsettled with
    | passed => exact .verified none
    | failed _ _ hnone =>
      rw [hplan.truthy_rollback hrollback] at hnone
      cases hnone
    | rolledBack _ _ _ hconfirm =>
      rw [hplan.rollback] at hconfirm
      exact .rolledBack _ ⟨plan, head, report, fs, hreported, _, _, hconfirm, fun _ hkind =>
        runRollback_fileDelete hkind hconfirm⟩
    | incident _ _ _ hconfirm =>
      rw [hplan.rollback] at hconfirm
      exact .incident ⟨plan, head, report, fs, hreported, _, _, hconfirm, fun h => (by cases h)⟩

/-- A failure before the predicates is no good end. -/
theorem not_goodEnd_fail {kind : FailureKind} {reason : Str} (hkind : kind ∈ earlyKinds) :
    ¬ GoodEnd sys lib req contract w fs (Outcome.fail kind reason).status
    (Outcome.fail kind reason).failureKind := by
  intro h
  cases h with
  | incident => exact absurd hkind (by decide)

/-- **When an execution ends well**: where the report of the runner passes the checks. -/
theorem endsWell_iff (hrollback : isNull (field contract "rollback") = false)
    (h : executeContract P sys lib req contract w = (.ok result, w')) :
    GoodEnd sys lib req contract w w'.fs result.outcome.status result.outcome.failureKind ↔
      Recoverable sys lib req contract w := by
  constructor
  · intro hend
    obtain ⟨plan, head, fs₀, report, hplan, hhead, hran⟩ := ran_of_executeContract h
    generalize houtcome : result.outcome = outcome at hran hend
    cases hran with
    | crashed hrunner => exact absurd hend (not_goodEnd_fail (by decide))
    | judged hrunner hreport hjudged =>
      rename_i raw fs
      have hpass : Passes sys lib req plan report fs := by
        cases hjudged with
        | refused hfail hkind => exact absurd hend (not_goodEnd_fail hkind)
        | submitted hpass => exact hpass
        | settled hpass => exact hpass
      exact ⟨plan, head, report, fs, ⟨hplan, fs₀, raw, hhead, hrunner, hreport⟩, hpass⟩
  · rintro ⟨plan, head, report, fs, hreported, hpass⟩
    rw [executeContract_of_reported hreported] at h
    rcases hjudge : judge P sys lib req plan report head fs with ⟨e | outcome, fs'⟩
      <;> rw [hjudge] at h
    · cases h
    · obtain ⟨houtcome, hfs⟩ := (finalize_eq_ok.mp h).outcome_fs
      rw [houtcome, hfs]
      exact goodEnd_of_passes hreported hrollback hpass (judge_cases hjudge)

end

/-! ## A runner that writes, and raises -/

/-- The file that the runner writes. -/
def outFile : Path := [lit "root", lit "out.txt"]

/-- A runner that writes its file, and then crashes. -/
def crashing : System (List Path) := .files fun _ files =>
  (.error (.raised (lit "RuntimeError") (lit "boom")), outFile :: files)

/-- A runner that writes its file, and reports it. -/
def writing : System (List Path) := .files fun _ files =>
  (.ok (object [("exit_code", .int 0), ("artifacts", .list [.str (lit "out.txt")])]),
    outFile :: files)

/-- A contract with a file that is to be there, and the rollback of what was written. -/
def deletingContract (expected : String) : PyVal :=
  object [("task_id", .str (lit "t1")), ("objective", .str (lit "o")), ("skill", .str (lit "s")),
    ("side_effects", .list [object [("kind", .str (lit "file_write")), ("path", .str (lit "."))]]),
    ("expected_output",
      object [("predicates",
        .list [object [("kind", .str (lit "file_exists")), ("path", .str (lit expected))]])]),
    ("rollback", object [("kind", .str (lit "file_delete")), ("scope", .str (lit "."))])]

/-- Another file was expected, and the one that was written is gone. -/
theorem endsWell_iff_writing : ∃ result w',
    executeContract backwards writing .plain rootRequest (deletingContract "other.txt")
    (.start []) = (.ok result, w') ∧
      result.outcome.status = .rolledBack ∧ w'.fs = [] ∧
      (GoodEnd writing .plain rootRequest (deletingContract "other.txt") (.start []) w'.fs
          result.outcome.status result.outcome.failureKind ↔
        Recoverable writing .plain rootRequest (deletingContract "other.txt") (.start [])) := by
  have hrolled :
    (executeContract backwards writing .plain rootRequest (deletingContract "other.txt")
        (.start [])).1.toOption.map (fun result => result.outcome.status) = some .rolledBack ∧
      (executeContract backwards writing .plain rootRequest (deletingContract "other.txt")
        (.start [])).2.fs = [] := by
    decide +kernel
  rcases hrun : executeContract backwards writing .plain rootRequest (deletingContract "other.txt")
    (.start []) with ⟨e | result, w'⟩
  · rw [hrun] at hrolled
    cases hrolled.1
  · rw [hrun] at hrolled
    exact ⟨result, w', rfl, Option.some.inj hrolled.1, hrolled.2, endsWell_iff rfl hrun⟩

/-- The runner raises after the file is written, and the file stays. -/
theorem not_endsWell : ¬ ∀ (P : Platform) (σ : Type) (sys : System σ) (lib : ExecLib)
    (req : Request) (contract : PyVal)
    (w w' : World σ) (result : ExecutionResult), isNull (field contract "rollback") = false →
      executeContract P sys lib req contract w = (.ok result, w') →
        GoodEnd sys lib req contract w w'.fs result.outcome.status result.outcome.failureKind := by
  intro h
  have hfailed :
    (executeContract backwards crashing .plain rootRequest (deletingContract "out.txt")
      (.start [])).1.toOption.map
      (fun result => (result.outcome.status, result.outcome.failureKind)) =
      some (.failed, some .crash) := by
    decide +kernel
  rcases hrun : executeContract backwards crashing .plain rootRequest (deletingContract "out.txt")
    (.start []) with
    ⟨e | result, w'⟩
  · rw [hrun] at hfailed
    cases hfailed
  rw [hrun] at hfailed
  obtain ⟨hstatus, hkind⟩ := Prod.mk.inj (Option.some.inj hfailed)
  have hend := h _ _ _ _ _ _ _ w' result rfl hrun
  rw [hstatus, hkind] at hend
  cases hend

end Conversation
