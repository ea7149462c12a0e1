import Msb.Infra.Run
import Msb.Ledger.AuditChain

/-!
# Run records

The table `cron_runs` of `cron/store.py`, shared by any number of processes. A call that reads
before it writes does so in two steps: the `SELECT` sees the table as it is, and the writes, one
transaction, come later. What other processes do in between is left open.

* `runs_final_iff` — the runs in which a closed record keeps its status
* `late_finish_reopens` — a restart closes a record, and the process that works on it closes it
  again
-/

namespace CronRuns

open Py Ledger Machine

/-! ## The table -/

/-- `RUN_STATUSES` -/
inductive RunStatus where
  | running
  | success
  | failed
  | blocked
  | skipped
  | interrupted
  deriving DecidableEq

def RunStatus.text : RunStatus → Str
  | .running => lit "RUNNING"
  | .success => lit "SUCCESS"
  | .failed => lit "FAILED"
  | .blocked => lit "BLOCKED"
  | .skipped => lit "SKIPPED"
  | .interrupted => lit "INTERRUPTED"

def RunStatus.all : List RunStatus :=
  [.running, .success, .failed, .blocked, .skipped, .interrupted]

/-- `TERMINAL_STATUSES` -/
def RunStatus.terminal (s : RunStatus) : Bool := s ≠ .running

/-- The status of a text, where it is one. -/
def RunStatus.ofText (text : Str) : Option RunStatus := RunStatus.all.find? fun s => s.text = text

/-- A row of `cron_runs`. -/
structure CronRun where
  runId : Str
  jobId : Str
  status : RunStatus
  trigger : Str
  startedAt : Str
  finishedAt : Option Str
  durationMs : Option ℚ
  attempt : Int
  summaryJson : Str
  error : Option Str
  deriving DecidableEq

/-- `_j` -/
def summaryText (value : PyVal) : Str := render plainStyle (toJson KeySort.insertion false value)

/-- How the rows of a job are ordered, the newest first. How rows with one `started_at` are ordered
is left open. -/
structure NewestFirst where
  order : List CronRun → List CronRun
  perm : ∀ rows, (order rows).Perm rows
  sorted : ∀ rows, (order rows).Pairwise fun a b => b.startedAt ≤ a.startedAt

structure FinishCall where
  runId : Str
  status : Str
  summary : Option PyVal
  error : Option Str

/-- What a call has read, before it writes. -/
inductive Pending where
  | finish (call : FinishCall) (status : RunStatus) (startedAt : Option Str)
  | recover (runIds : List Str)
  | prune (jobId : Str) (keep : Nat) (rows : List CronRun)

/-- A row that was deleted: what `prune_history` had read. -/
structure Removal where
  runId : Str
  jobId : Str
  keep : Nat
  rows : List CronRun

/-- The table, and what each process has read. `started` and `removed` are a history. -/
structure CronTable where
  runs : List CronRun
  pending : Nat → Option Pending
  started : List Str
  removed : List Removal

def CronTable.init : CronTable := ⟨[], fun _ => none, [], []⟩

/-- The clock at each write, and the milliseconds since a time. -/
structure WriteEnv where
  now : Str → Str
  durationMs : Option Str → Option ℚ

/-- `p` names the process. -/
inductive CronEvent where
  | start (runId jobId trigger now : Str) (attempt : Int)
  | finish (p : Nat) (call : FinishCall)
  | recover (p : Nat)
  | prune (p : Nat) (jobId : Str) (keep : Int)
  | write (p : Nat) (env : WriteEnv)
  | abort (p : Nat)

/-- `start_run` -/
def newRun (runId jobId trigger now : Str) (attempt : Int) : CronRun :=
  ⟨runId, jobId, .running, trigger, now, none, none, attempt, summaryText (.dict []), none⟩

/-- The `UPDATE` of `finish_run`. -/
def FinishCall.set (call : FinishCall) (status : RunStatus) (startedAt : Option Str)
    (env : WriteEnv) (run : CronRun) : CronRun :=
  if run.runId = call.runId then
    { run with
      status := status
      finishedAt := some (env.now run.runId)
      durationMs := env.durationMs startedAt
      summaryJson := summaryText (call.summary.getD (.dict []))
      error := call.error }
  else run

/-- The `UPDATE`s of `recover_inflight`. -/
def interrupt (runIds : List Str) (env : WriteEnv) (run : CronRun) : CronRun :=
  if run.runId ∈ runIds then
    { run with
      status := .interrupted
      finishedAt := some (env.now run.runId)
      error := some (lit "interrupted by scheduler restart") }
  else run

/-- `ORDER BY started_at DESC LIMIT -1 OFFSET keep` -/
def NewestFirst.older (N : NewestFirst) (jobId : Str) (keep : Nat) (rows : List CronRun) :
    List CronRun :=
  (N.order (rows.filter fun run => run.jobId = jobId)).drop keep

variable (N : NewestFirst)

/-- What the write of a call does to the table. -/
def Pending.write (env : WriteEnv) (t : CronTable) : Pending → CronTable
  | .finish call status startedAt => { t with runs := t.runs.map (call.set status startedAt env) }
  | .recover runIds => { t with runs := t.runs.map (interrupt runIds env) }
  | .prune jobId keep rows =>
    let old := N.older jobId keep rows
    { t with
      runs := t.runs.filter fun run => run.runId ∉ old.map CronRun.runId
      removed := t.removed ++ old.map fun run => ⟨run.runId, jobId, keep, rows⟩ }

/-- A process that has read goes on to its write. -/
def CronTable.hold (t : CronTable) (p : Nat) (read : Option Pending) : Option CronTable :=
  match t.pending p with
  | some _ => none
  | none => some { t with pending := Function.update t.pending p read }

def cronStep (t : CronTable) : CronEvent → Option CronTable
  | .start runId jobId trigger now attempt =>
    -- the identifier is a new one
    if runId ∈ t.started then none
    else some { t with
      runs := t.runs ++ [newRun runId jobId trigger now attempt], started := t.started ++ [runId] }
  | .finish p call =>
    -- a status that is none raises
    t.hold p ((RunStatus.ofText call.status).map fun status =>
      .finish call status ((t.runs.find? fun run => run.runId = call.runId).map CronRun.startedAt))
  | .recover p =>
    t.hold p (some (.recover ((t.runs.filter fun run => run.status = .running).map CronRun.runId)))
  | .prune p jobId keep =>
    t.hold p (if keep ≤ 0 then none else some (.prune jobId keep.toNat t.runs))
  | .write p env =>
    match t.pending p with
    | none => none
    | some pending =>
      some { pending.write N env t with pending := Function.update t.pending p none }
  | .abort p => some { t with pending := Function.update t.pending p none }

/-! ## What the table keeps -/

/-- The rows of a job that are not older than a row, that row apart. -/
def notOlder (run : CronRun) (rows : List CronRun) : List CronRun :=
  rows.filter fun other => other.jobId = run.jobId ∧ run.startedAt ≤ other.startedAt ∧
    other.runId ≠ run.runId

/-- Every run that was started has a row, or a row that `prune_history` has deleted when so many of
its job were not older. -/
def Accounted (t : CronTable) : Prop :=
  ∀ runId ∈ t.started, (∃ run ∈ t.runs, run.runId = runId) ∨
    ∃ r ∈ t.removed, r.runId = runId ∧ 0 < r.keep ∧
      ∃ run ∈ r.rows, run.runId = runId ∧ run.jobId = r.jobId ∧
      r.keep ≤ (notOlder run r.rows).length

/-- The rows that are still there and were closed before keep their status. -/
def Final (t u : CronTable) : Prop :=
  t.started ⊆ u.started ∧
    ∀ run ∈ u.runs, run.runId ∈ t.started → ∃ before ∈ t.runs, before.runId = run.runId ∧
    before.jobId = run.jobId ∧ (before.status.terminal = true → run.status = before.status)

/-- The write finds the rows that it closes open, or closed with the status that it writes. -/
def Pending.Undisturbed (t : CronTable) : Pending → Prop
  | .finish call status _ =>
    ∀ run ∈ t.runs, run.runId = call.runId → run.status.terminal = true → run.status = status
  | .recover runIds =>
    ∀ run ∈ t.runs, run.runId ∈ runIds → run.status.terminal = true → run.status = .interrupted
  | .prune _ _ _ => True

def Undisturbed (t : CronTable) : CronEvent → Prop
  | .write p _ => ∀ pending ∈ t.pending p, pending.Undisturbed t
  | _ => True

/-- What holds in every state reached. -/
structure Inv (t : CronTable) : Prop where
  nodup : (t.runs.map CronRun.runId).Nodup
  known : ∀ run ∈ t.runs, run.runId ∈ t.started
  accounted : Accounted t
  read : ∀ p jobId keep rows, t.pending p = some (.prune jobId keep rows) →
    0 < keep ∧ (rows.map CronRun.runId).Nodup

variable {N}

/-! ## Reading back what a call deletes -/

/-- **A row that is deleted has so many rows of its job beside it that are not older.** -/
theorem mem_older {jobId : Str} {keep : Nat} {rows : List CronRun}
    (hnd : (rows.map CronRun.runId).Nodup) {run : CronRun}
    (h : run ∈ N.older jobId keep rows) :
    run ∈ rows ∧ run.jobId = jobId ∧ keep ≤ (notOlder run rows).length := by
  have hsplit := List.take_append_drop keep (N.order (rows.filter fun run => run.jobId = jobId))
  have hperm := N.perm (rows.filter fun run => run.jobId = jobId)
  have hmem : ∀ other ∈ N.order (rows.filter fun run => run.jobId = jobId), other ∈ rows ∧
      other.jobId = jobId := by
    intro other hother
    rw [hperm.mem_iff, List.mem_filter, decide_eq_true_eq] at hother
    exact hother
  obtain ⟨hrun, hjob⟩ := hmem run (List.mem_of_mem_drop h)
  refine ⟨hrun, hjob, ?_⟩
  have hids : ((N.order (rows.filter fun run => run.jobId = jobId)).map CronRun.runId).Nodup := by
    rw [(hperm.map _).nodup_iff]
    exact hnd.sublist (List.filter_sublist.map _)
  have hsorted := N.sorted (rows.filter fun run => run.jobId = jobId)
  rw [← hsplit, List.pairwise_append] at hsorted
  rw [← hsplit, List.map_append, List.nodup_append] at hids
  -- the rows before it are not older, and other ones
  have hsub : (N.order (rows.filter fun run => run.jobId = jobId)).take keep ⊆
      notOlder run rows := by
    intro other hother
    obtain ⟨hin, hsame⟩ := hmem other (List.mem_of_mem_take hother)
    refine List.mem_filter.mpr
      ⟨hin, decide_eq_true ⟨hsame.trans hjob.symm, hsorted.2.2 other hother run h, ?_⟩⟩
    exact hids.2.2 other.runId (List.mem_map_of_mem hother) run.runId (List.mem_map_of_mem h)
  have hlen := (hids.1.of_map.subperm hsub).length_le
  have hpos := List.length_pos_of_mem h
  rw [NewestFirst.older, List.length_drop] at hpos
  rw [List.length_take] at hlen
  omega

/-! ## The steps -/

@[simp] theorem set_runId (call : FinishCall) (status : RunStatus) (startedAt : Option Str)
    (env : WriteEnv) (run : CronRun) : (call.set status startedAt env run).runId = run.runId := by
  unfold FinishCall.set
  split_ifs
  · rfl
  · rfl

@[simp] theorem set_jobId (call : FinishCall) (status : RunStatus) (startedAt : Option Str)
    (env : WriteEnv) (run : CronRun) : (call.set status startedAt env run).jobId = run.jobId := by
  unfold FinishCall.set
  split_ifs
  · rfl
  · rfl

theorem set_status (call : FinishCall) (status : RunStatus) (startedAt : Option Str)
    (env : WriteEnv) (run : CronRun) :
    (call.set status startedAt env run).status = if run.runId = call.runId then status
    else run.status := by
  unfold FinishCall.set
  split_ifs
  · rfl
  · rfl

@[simp] theorem interrupt_runId (runIds : List Str) (env : WriteEnv) (run : CronRun) :
    (interrupt runIds env run).runId = run.runId := by
  unfold interrupt
  split_ifs
  · rfl
  · rfl

@[simp] theorem interrupt_jobId (runIds : List Str) (env : WriteEnv) (run : CronRun) :
    (interrupt runIds env run).jobId = run.jobId := by
  unfold interrupt
  split_ifs
  · rfl
  · rfl

theorem interrupt_status (runIds : List Str) (env : WriteEnv) (run : CronRun) :
    (interrupt runIds env run).status = if run.runId ∈ runIds then .interrupted
    else run.status := by
  unfold interrupt
  split_ifs
  · rfl
  · rfl

variable {t u v : CronTable}

theorem Final.refl (t : CronTable) : Final t t :=
  ⟨fun _ h => h, fun run hrun _ => ⟨run, hrun, rfl, rfl, fun _ => rfl⟩⟩

theorem Final.trans (htu : Final t u) (huv : Final u v) : Final t v := by
  refine ⟨fun _ hmem => huv.1 (htu.1 hmem), fun run hrun hknown => ?_⟩
  obtain ⟨mid, hmid, hid, hjob, hsame⟩ := huv.2 run hrun (htu.1 hknown)
  obtain ⟨before, hbefore, hid', hjob', hsame'⟩ := htu.2 mid hmid (hid ▸ hknown)
  refine ⟨before, hbefore, hid'.trans hid, hjob'.trans hjob, fun hterminal => ?_⟩
  have hmidStatus := hsame' hterminal
  rw [← hmidStatus] at hterminal ⊢
  exact hsame hterminal

/-- A write that changes statuses only: exactly where no closed row gets another one, the rows are
final. -/
theorem final_map_iff (hinv : Inv t) {f : CronRun → CronRun}
    (hid : ∀ run, (f run).runId = run.runId)
    (hjob : ∀ run, (f run).jobId = run.jobId) (hruns : u.runs = t.runs.map f)
    (hstarted : u.started = t.started) :
    Final t u ↔ ∀ run ∈ t.runs, run.status.terminal = true → (f run).status = run.status := by
  unfold Final
  rw [hruns, hstarted]
  constructor
  · rintro ⟨-, h⟩ run hrun hterminal
    obtain ⟨before, hbefore, hsame, -, hstatus⟩ :=
      h (f run) (List.mem_map_of_mem hrun) (hid run ▸ hinv.known run hrun)
    obtain rfl := List.inj_on_of_nodup_map hinv.nodup hbefore hrun (hsame.trans (hid run))
    exact hstatus hterminal
  · intro h
    refine ⟨fun _ h => h, fun run hrun _ => ?_⟩
    obtain ⟨before, hbefore, rfl⟩ := List.mem_map.mp hrun
    exact ⟨before, hbefore, (hid before).symm, (hjob before).symm, h before hbefore⟩

/-- Rows that are only taken away are final. -/
theorem final_of_subset (hruns : u.runs ⊆ t.runs) (hstarted : u.started = t.started) : Final t u :=
  ⟨fun _ hmem => hstarted ▸ hmem, fun run hrun _ => ⟨run, hruns hrun, rfl, rfl, fun _ => rfl⟩⟩

/-- A write that keeps the identifiers keeps the account. -/
theorem Inv.map (hinv : Inv t) {f : CronRun → CronRun} (hid : ∀ run, (f run).runId = run.runId)
    (pending : Nat → Option Pending)
    (hread : ∀ p jobId keep rows, pending p = some (.prune jobId keep rows) →
      0 < keep ∧ (rows.map CronRun.runId).Nodup) :
    Inv { t with runs := t.runs.map f, pending := pending } where
  nodup := by
    have hids : (t.runs.map f).map CronRun.runId = t.runs.map CronRun.runId := by
      rw [List.map_map]
      exact List.map_congr_left fun run _ => hid run
    show ((t.runs.map f).map CronRun.runId).Nodup
    rw [hids]
    exact hinv.nodup
  known := by
    intro run hrun
    obtain ⟨before, hbefore, rfl⟩ := List.mem_map.mp hrun
    rw [hid]
    exact hinv.known before hbefore
  accounted := by
    intro runId hstarted
    rcases hinv.accounted runId hstarted with ⟨run, hrun, rfl⟩ | hremoved
    · exact .inl ⟨f run, List.mem_map_of_mem hrun, hid run⟩
    · exact .inr hremoved
  read := hread

/-- A read, or a call that is given up, leaves the rows as they are. -/
theorem Inv.held (hinv : Inv t) {p : Nat} {read : Option Pending}
    (hread : ∀ jobId keep rows, read = some (.prune jobId keep rows) → 0 < keep ∧
      (rows.map CronRun.runId).Nodup) :
    Inv { t with pending := Function.update t.pending p read } where
  nodup := hinv.nodup
  known := hinv.known
  accounted := hinv.accounted
  read := by
    intro q jobId keep rows hq
    change Function.update t.pending p read q = _ at hq
    by_cases hqp : q = p
    · subst hqp
      rw [Function.update_self] at hq
      exact hread jobId keep rows hq
    · rw [Function.update_of_ne hqp] at hq
      exact hinv.read q jobId keep rows hq

theorem hold_eq_some {p : Nat} {read : Option Pending} (h : t.hold p read = some u) :
    u = { t with pending := Function.update t.pending p read } := by
  unfold CronTable.hold at h
  split at h
  · cases h
  · exact (Option.some.inj h).symm

/-- **A start** adds a row with a new identifier. -/
theorem Inv.start (hinv : Inv t) {runId : Str} (hnew : runId ∉ t.started) {run : CronRun}
    (hid : run.runId = runId) :
    Inv { t with runs := t.runs ++ [run], started := t.started ++ [runId] } ∧
      Final t { t with runs := t.runs ++ [run], started := t.started ++ [runId] } := by
  subst hid
  have hold : ∀ other ∈ t.runs, other.runId ≠ run.runId :=
    fun other hother heq => hnew (heq ▸ hinv.known other hother)
  refine ⟨⟨?_, ?_, ?_, hinv.read⟩, ?_, ?_⟩
  · rw [List.map_append]
    refine hinv.nodup.append (List.nodup_singleton _) fun id hin hlast => ?_
    obtain ⟨other, hother, rfl⟩ := List.mem_map.mp hin
    exact hold other hother (List.mem_singleton.mp hlast)
  · intro other hother
    rcases List.mem_append.mp hother with hother | hother
    · exact List.mem_append_left _ (hinv.known other hother)
    · rw [List.mem_singleton.mp hother]
      exact List.mem_append_right _ (List.mem_singleton_self _)
  · intro id hstarted
    rcases List.mem_append.mp hstarted with hstarted | hstarted
    · rcases hinv.accounted id hstarted with ⟨other, hother, heq⟩ | hremoved
      · exact .inl ⟨other, List.mem_append_left _ hother, heq⟩
      · exact .inr hremoved
    · exact .inl ⟨run, by simp, (List.mem_singleton.mp hstarted).symm⟩
  · exact List.subset_append_left _ _
  · intro other hother hknown
    rcases List.mem_append.mp hother with hother | hother
    · exact ⟨other, hother, rfl, rfl, fun _ => rfl⟩
    · rw [List.mem_singleton.mp hother] at hknown
      exact absurd hknown hnew

/-- **The deletion** is accounted for by what was read. -/
theorem Inv.prune (hinv : Inv t) {p : Nat} {jobId : Str} {keep : Nat} {rows : List CronRun}
    {env : WriteEnv} (hp : t.pending p = some (.prune jobId keep rows)) :
    Inv { (Pending.prune jobId keep rows).write N env t with
        pending := Function.update t.pending p none } := by
  obtain ⟨hkeep, hnd⟩ := hinv.read p jobId keep rows hp
  refine ⟨?_, fun run hrun => hinv.known run (List.mem_of_mem_filter hrun),
    fun runId hstarted => ?_, ?_⟩
  · exact hinv.nodup.sublist (List.filter_sublist.map _)
  · rcases hinv.accounted runId hstarted with ⟨run, hrun, rfl⟩ | ⟨r, hr, hremoved⟩
    · by_cases hold : run.runId ∈ (N.older jobId keep rows).map CronRun.runId
      · obtain ⟨old, hin, heq⟩ := List.mem_map.mp hold
        obtain ⟨hmem, hjob, hlen⟩ := mem_older hnd hin
        refine .inr ⟨⟨old.runId, jobId, keep, rows⟩, ?_, heq, hkeep, old, hmem, heq, hjob, hlen⟩
        exact List.mem_append_right _ (List.mem_map_of_mem hin)
      · exact .inl ⟨run, List.mem_filter.mpr ⟨hrun, decide_eq_true hold⟩, rfl⟩
    · exact .inr ⟨r, List.mem_append_left _ hr, hremoved⟩
  · exact (@Inv.held t hinv p none (by simp)).read

/-- **What one event does**: the invariant is kept, and the closed rows keep their status exactly
where the event is undisturbed. -/
theorem Inv.step (hinv : Inv t) {e : CronEvent} (h : cronStep N t e = some u) :
    Inv u ∧ (Undisturbed t e ↔ Final t u) := by
  cases e with
  | start runId jobId trigger now attempt =>
    simp only [cronStep] at h
    split_ifs at h with hnew
    obtain rfl := Option.some.inj h
    obtain ⟨hinv', hfinal⟩ :=
      hinv.start hnew (show (newRun runId jobId trigger now attempt).runId = runId from rfl)
    exact ⟨hinv', iff_of_true trivial hfinal⟩
  | finish p call =>
    obtain rfl := hold_eq_some h
    refine ⟨hinv.held fun jobId keep rows hread => ?_,
      iff_of_true trivial (final_of_subset (fun _ h => h) rfl)⟩
    obtain ⟨status, -, heq⟩ := Option.map_eq_some_iff.mp hread
    cases heq
  | recover p =>
    obtain rfl := hold_eq_some h
    refine ⟨hinv.held fun jobId keep rows hread => ?_,
      iff_of_true trivial (final_of_subset (fun _ h => h) rfl)⟩
    cases hread
  | prune p jobId keep =>
    obtain rfl := hold_eq_some h
    refine ⟨hinv.held fun job k rows hread => ?_,
      iff_of_true trivial (final_of_subset (fun _ h => h) rfl)⟩
    split_ifs at hread with hkeep
    cases hread
    exact ⟨by omega, hinv.nodup⟩
  | abort p =>
    obtain rfl := Option.some.inj h
    exact ⟨hinv.held (by simp), iff_of_true trivial (final_of_subset (fun _ h => h) rfl)⟩
  -- only a write changes the rows, and some may have been closed since its read
  | write p env =>
    simp only [cronStep] at h
    cases hp : t.pending p with
    | none =>
      rw [hp] at h
      cases h
    | some pending =>
      rw [hp] at h
      obtain rfl := Option.some.inj h
      have hread := (@Inv.held t hinv p none (by simp)).read
      have hclear : Undisturbed t (.write p env) ↔ pending.Undisturbed t := by
        simp [Undisturbed, hp]
      rw [hclear]
      cases pending with
      | finish call status startedAt =>
        refine ⟨hinv.map (set_runId call status startedAt env) _ hread, ?_⟩
        refine ((final_map_iff hinv (set_runId call status startedAt env)
          (set_jobId call status startedAt env) ?_ ?_).trans ?_).symm
        · rfl
        · rfl
        refine forall₂_congr fun run _ => ?_
        rw [set_status]
        by_cases hid : run.runId = call.runId
        · rw [if_pos hid]
          exact ⟨fun h _ hterminal => (h hterminal).symm, fun h hterminal => (h hid hterminal).symm⟩
        · rw [if_neg hid]
          exact ⟨fun _ h => absurd h hid, fun _ _ => rfl⟩
      | recover runIds =>
        refine ⟨hinv.map (interrupt_runId runIds env) _ hread, ?_⟩
        refine ((final_map_iff hinv (interrupt_runId runIds env) (interrupt_jobId runIds env) ?_
          ?_).trans ?_).symm
        · rfl
        · rfl
        refine forall₂_congr fun run _ => ?_
        rw [interrupt_status]
        by_cases hid : run.runId ∈ runIds
        · rw [if_pos hid]
          exact ⟨fun h _ hterminal => (h hterminal).symm, fun h hterminal => (h hid hterminal).symm⟩
        · rw [if_neg hid]
          exact ⟨fun _ h => absurd h hid, fun _ _ => rfl⟩
      | prune jobId keep rows =>
        refine ⟨hinv.prune hp, iff_of_true trivial (final_of_subset (fun run hrun => ?_) rfl)⟩
        exact List.mem_of_mem_filter hrun

/-! ## Every interleaving -/

theorem inv_init : Inv .init :=
  ⟨List.nodup_nil, by simp [CronTable.init], by simp [Accounted,
    CronTable.init], by simp [CronTable.init]⟩

/-- A run in which every run record is accounted for, and every closed one keeps its status as long
as it has a row. -/
def RecordsFinal (N : NewestFirst) (es : List CronEvent) : Prop :=
  ∀ before between t u, before ++ between <+: es → run (cronStep N) .init before = some t →
    run (cronStep N) t between = some u → Accounted u ∧ Final t u

/-- **When run records are final**: exactly where every write finds the rows that it closes open, or
closed with the status that it writes. Whatever is deleted is accounted for. -/
theorem runs_final_iff (N : NewestFirst) (es : List CronEvent) :
    RecordsFinal N es ↔ Along (cronStep N) Undisturbed .init es := by
  refine along_iff_related (I := Inv) (P := Accounted) (R := Final) Final.refl
    (fun _ _ _ => Final.trans)
    (fun _ hinv => hinv.accounted) (fun t e u hinv _ h => (hinv.step h).1) ?_ ?_ inv_init
  · intro t e hnone
    cases e with
    | write p env =>
      intro pending hpending
      rw [cronStep, Option.mem_def.mp hpending] at hnone
      cases hnone
    | _ => trivial
  · intro t e u hinv h
    obtain ⟨hinv', hiff⟩ := hinv.step h
    rw [hiff]
    exact (and_iff_right hinv'.accounted).symm

/-- The order that a sort gives. -/
def byStart : NewestFirst where
  order rows := rows.mergeSort fun a b => decide (b.startedAt ≤ a.startedAt)
  perm rows := List.mergeSort_perm _ _
  sorted rows := by
    have hsorted := @List.pairwise_mergeSort CronRun (fun a b => decide (b.startedAt ≤ a.startedAt))
      (fun a b c hab hbc => by simp only [decide_eq_true_eq] at hab hbc ⊢; exact hbc.trans hab)
      (fun a b => by simpa using le_total b.startedAt a.startedAt) rows
    exact hsorted.imp fun h => of_decide_eq_true h

def fixedEnv : WriteEnv := ⟨fun _ => lit "2026-01-01T00:00:01+00:00", fun _ => none⟩

/-- A run by hand, the start of a scheduler that recovers, and the end of the run. -/
def restartRun : List CronEvent :=
  [.start (lit "cron-1") (lit "backup") (lit "manual") (lit "2026-01-01T00:00:00+00:00") 1,
    .recover 1, .write 1 fixedEnv, .finish 0 ⟨lit "cron-1", lit "SUCCESS", none, none⟩,
    .write 0 fixedEnv]

/-- `INTERRUPTED` becomes `SUCCESS`. -/
theorem late_finish_reopens : ¬ RecordsFinal byStart restartRun := by
  intro h
  have hbefore : ((run (cronStep byStart) .init (restartRun.take 3)).map fun t =>
    (t.started, t.runs.map CronRun.status))
      = some ([lit "cron-1"], [.interrupted]) := by decide +kernel
  have hafter :
    ((run (cronStep byStart) .init (restartRun.take 3 ++ restartRun.drop 3)).map fun t =>
      t.runs.map fun run => (run.runId, run.status)) =
        some [(lit "cron-1", .success)] := by decide +kernel
  obtain ⟨t, ht, hinterrupted⟩ := Option.map_eq_some_iff.mp hbefore
  obtain ⟨hstarted, hstatuses⟩ := Prod.mk.inj hinterrupted
  obtain ⟨u, hu, hsuccess⟩ := Option.map_eq_some_iff.mp hafter
  rw [run_append, ht, Option.bind_some] at hu
  obtain ⟨-, hfinal⟩ := (h _ _ t u (by rw [List.take_append_drop]) ht hu).2
  obtain ⟨run, hrun, hsame⟩ :=
    List.mem_map.mp (show (lit "cron-1", RunStatus.success) ∈ _ by rw [hsuccess]; simp)
  obtain ⟨hid, hstatus⟩ := Prod.mk.inj hsame
  obtain ⟨before, hmem, -, -, hkept⟩ := hfinal run hrun (by rw [hid, hstarted]; simp)
  have hclosed : before.status = .interrupted := by
    have := List.mem_map_of_mem (f := CronRun.status) hmem
    rw [hstatuses] at this
    exact List.mem_singleton.mp this
  have hreopened := hkept (by rw [hclosed]; decide)
  rw [hstatus, hclosed] at hreopened
  cases hreopened

end CronRuns
