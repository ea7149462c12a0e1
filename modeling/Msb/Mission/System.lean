import Msb.Infra.Run
import Msb.Ledger.AppendVerify
import Msb.Mission.Store

/-!
# The store and the chain

`_atomic`, run by any number of callers. `BEGIN IMMEDIATE` takes the write lock for the whole of it,
so one transaction is open at a time: its step has run, then the chain holds its event, then it is
committed. In between other components append to the chain, and whatever is left to chance (what
the chain raises, whether the commit fails) is in the events.

* `MissionEffect` — what an operation does to the tables
* `run_db` — what every operation keeps holds of the committed tables in every state reached
-/

namespace Mission

open Py Ledger Machine

/-! ## Operations -/

inductive MissionOp where
  | create (missionId objective createdBy : Str) (constraints : Option (List (PyKey × PyVal)))
  | addVersion (missionId : Str) (kind : VersionKind) (body : PyVal) (createdBy : Str)
  | transition (missionId toState actor reason : Str) (approvedBy : Option Str)

variable (P : Platform) (store : MissionStore)

/-- The step of an operation, at the time `now`. -/
def MissionOp.step (op : MissionOp) (now : Str) (db : MissionDb) : Except PyError MissionStep :=
  match op with
  | .create missionId objective createdBy constraints =>
    Mission.create P db missionId now objective createdBy constraints
  | .addVersion missionId kind body createdBy =>
    Mission.addVersion P store db now missionId kind body createdBy
  | .transition missionId toState actor reason approvedBy =>
    Mission.transition store db now missionId toState actor reason approvedBy

/-- The event and the tables that an operation hands to `_atomic`. -/
inductive MissionEffect (db : MissionDb) : Option AppendCall → MissionDb → Prop where
  | same : MissionEffect db none db
  | create (m : MissionRow) (draft : m.state = .draft) (noResume : m.resumeState = none)
      (fresh : ∀ x ∈ db.missions, x.missionId ≠ m.missionId) :
      MissionEffect db (some m.call) { db with missions := db.missions ++ [m] }
  | version (v : VersionRow) (known : ∃ m ∈ db.missions, m.missionId = v.missionId)
      (number : v.version = ((latest db v.missionId v.kind).map VersionRow.version).getD 0 + 1) :
      MissionEffect db (some v.call) { db with versions := db.versions ++ [v] }
  | move (m : MissionRow) (entry : TransitionRow) (mem : m ∈ db.missions)
      (ids : entry.missionId = m.missionId) (source : entry.fromState = m.state)
      (allowed : entry.toState ∈ allowedTargets m.state m.resumeState)
      (gate : entry.toState.gateVerdict = true → entry.actor = gateActor)
      (human : isHumanGated m.state entry.toState = true →
        ∃ a ∈ entry.approvedBy, a ∈ store.operators) :
      MissionEffect db (some entry.call)
        (db.move entry (if entry.toState = .blockedOnHuman then some m.state else none))

variable {P store}

/-- What an operation does, from the checks it has passed. -/
theorem MissionOp.step_effect {op : MissionOp} {now : Str} {db : MissionDb} {step : MissionStep}
    (h : op.step P store now db = .ok step) : MissionEffect store db step.event step.db := by
  cases op with
  | create missionId objective createdBy constraints =>
    obtain ⟨m, hid, hdraft, hresume, hfresh, hev, hdb⟩ := create_spec h
    rw [hev, hdb]
    exact .create m hdraft hresume (hid ▸ hfresh)
  | addVersion missionId kind body createdBy =>
    obtain ⟨⟨m, hrow, -⟩, ⟨hev, hdb⟩ | ⟨v, hid, hkind, hnum, hev, hdb⟩⟩ := addVersion_spec h
    · rw [hev, hdb]
      exact .same
    · rw [hev, hdb]
      obtain ⟨hmem, hm⟩ := row_eq_ok hrow
      subst hid hkind
      exact .version v ⟨m, hmem, hm⟩ hnum
  | transition missionId toState actor reason approvedBy =>
    obtain ⟨target, m, -, -, -, hrow, hallowed, hgate, hhuman, -, -, rfl⟩ := transition_eq_ok.mp h
    obtain ⟨hmem, hm⟩ := row_eq_ok hrow
    exact .move m _ hmem hm.symm rfl hallowed hgate hhuman

/-! ## The system -/

/-- What the chain does with an event: whether `_chain_or_default` raises, what `append` meets, and
what re-anchoring raises after it. -/
structure ChainEnv where
  unavailable : Option PyError
  append : AppendEnv
  timestamp : Str
  anchorFailure : Option PyError

/-- `_chain_or_default().append`. An `AnchoredAuditChain` appends and then writes a new anchor. -/
def chainAppend (P : Platform) (env : ChainEnv) (chain : AuditDb) (call : AppendCall) :
    Except PyError AuditRecord × AuditDb :=
  match env.unavailable with
  | some e => (.error e, chain)
  | none =>
    let out := append P env.append chain call env.timestamp
    match out.result, env.append.anchored, env.anchorFailure with
    | .ok _, true, some e => (.error e, out.db)
    | result, _, _ => (result, out.db)

/-- The open transaction. -/
inductive MissionTxn where
  | stepped (db : MissionDb) (call : AppendCall)
  | appended (db : MissionDb) (call : AppendCall) (record : AuditRecord)

/-- The committed tables, the chain, and the open transaction. `lost` is a history of the records
whose commit has failed. -/
structure MissionSystem where
  db : MissionDb
  chain : AuditDb
  txn : Option MissionTxn
  lost : List AuditRecord

/-- A new store beside a chain that holds no event of it yet. -/
def MissionSystem.init (chain : AuditDb) : MissionSystem := ⟨.init, chain, none, []⟩

inductive MissionEvent where
  | call (op : MissionOp) (now : Str)
  | append (env : ChainEnv)
  | commit (done : Bool)
  | other (env : ChainEnv) (call : AppendCall)

variable (P store)

def missionStep (s : MissionSystem) : MissionEvent → Option MissionSystem
  | .call op now =>
    match s.txn with
    -- the lock is held, and the call gives up
    | some _ => some s
    | none =>
      match op.step P store now s.db with
      | .error _ => some s
      | .ok step =>
        match step.event with
        | none => some s
        | some call => some { s with txn := some (.stepped step.db call) }
  | .append env =>
    match s.txn with
    | some (.stepped db call) =>
      match chainAppend P env s.chain call with
      | (.ok record, chain) =>
        some { s with chain := chain, txn := some (.appended db call record) }
      | (.error _, chain) => some { s with chain := chain, txn := none }
    | _ => none
  | .commit done =>
    match s.txn with
    | some (.appended db _ record) =>
      if done then some { s with db := db, txn := none }
      else some { s with txn := none, lost := s.lost ++ [record] }
    | _ => none
  | .other env call =>
    if call.component = chainComponent then none
    else some { s with chain := (chainAppend P env s.chain call).2 }

variable {P store}

/-- What one event does: the cases of `missionStep`. -/
inductive SystemMove (P : Platform) (store : MissionStore) (s : MissionSystem) :
    MissionEvent → MissionSystem → Prop where
  | stay (op : MissionOp) (now : Str) : SystemMove P store s (.call op now) s
  | opened (op : MissionOp) (now : Str) (step : MissionStep) (call : AppendCall)
      (free : s.txn = none) (ran : op.step P store now s.db = .ok step)
      (event : step.event = some call) :
      SystemMove P store s (.call op now) { s with txn := some (.stepped step.db call) }
  | recorded (env : ChainEnv) (db : MissionDb) (call : AppendCall) (record : AuditRecord)
      (chain : AuditDb) (txn : s.txn = some (.stepped db call))
      (append : chainAppend P env s.chain call = (.ok record, chain)) :
      SystemMove P store s (.append env)
        { s with chain := chain, txn := some (.appended db call record) }
  | refused (env : ChainEnv) (db : MissionDb) (call : AppendCall) (e : PyError) (chain : AuditDb)
      (txn : s.txn = some (.stepped db call))
      (append : chainAppend P env s.chain call = (.error e, chain)) :
      SystemMove P store s (.append env) { s with chain := chain, txn := none }
  | committed (db : MissionDb) (call : AppendCall) (record : AuditRecord)
      (txn : s.txn = some (.appended db call record)) :
      SystemMove P store s (.commit true) { s with db := db, txn := none }
  | failed (db : MissionDb) (call : AppendCall) (record : AuditRecord)
      (txn : s.txn = some (.appended db call record)) :
      SystemMove P store s (.commit false) { s with txn := none, lost := s.lost ++ [record] }
  | other (env : ChainEnv) (call : AppendCall) (foreign : call.component ≠ chainComponent) :
      SystemMove P store s (.other env call) { s with chain := (chainAppend P env s.chain call).2 }

theorem missionStep_move {s t : MissionSystem} {e : MissionEvent}
    (h : missionStep P store s e = some t) : SystemMove P store s e t := by
  cases e with
  | call op now =>
    simp only [missionStep] at h
    split at h
    · obtain rfl := Option.some.inj h
      exact .stay op now
    next hfree =>
    split at h
    · obtain rfl := Option.some.inj h
      exact .stay op now
    next step hstep =>
    split at h
    · obtain rfl := Option.some.inj h
      exact .stay op now
    next call hcall =>
    obtain rfl := Option.some.inj h
    exact .opened op now step call hfree hstep hcall
  | append env =>
    simp only [missionStep] at h
    split at h
    · next db call htxn =>
      split at h
      · next record chain happend =>
        obtain rfl := Option.some.inj h
        exact .recorded env db call record chain htxn happend
      · next e chain happend =>
        obtain rfl := Option.some.inj h
        exact .refused env db call e chain htxn happend
    · cases h
  | commit done =>
    simp only [missionStep] at h
    split at h
    · next db call record htxn =>
      cases done with
      | true =>
        obtain rfl := Option.some.inj h
        exact .committed db call record htxn
      | false =>
        obtain rfl := Option.some.inj h
        exact .failed db call record htxn
    · cases h
  | other env call =>
    simp only [missionStep] at h
    split at h
    · cases h
    · next hne =>
      obtain rfl := Option.some.inj h
      exact .other env call hne

/-! ## The tables along a run -/

/-- The open transaction holds the tables as its operation leaves them. -/
def MissionTxn.Pending (store : MissionStore) (db : MissionDb) : MissionTxn → Prop
  | .stepped db' call => MissionEffect store db (some call) db'
  | .appended db' call _ => MissionEffect store db (some call) db'

/-- An invariant of the tables holds of the committed ones, and the open transaction is in order. -/
structure TablesInv (store : MissionStore) (I : MissionDb → Prop) (s : MissionSystem) : Prop where
  committed : I s.db
  pending : ∀ txn ∈ s.txn, txn.Pending store s.db

theorem step_tables {I : MissionDb → Prop}
    (hI : ∀ db call db', I db → MissionEffect store db call db' → I db') {s t : MissionSystem}
    {e : MissionEvent} (hs : TablesInv store I s) (h : missionStep P store s e = some t) :
    TablesInv store I t := by
  cases missionStep_move h with
  | stay op now => exact hs
  | opened op now step call _ hran hevent =>
    have heffect := MissionOp.step_effect hran
    rw [hevent] at heffect
    refine ⟨hs.committed, ?_⟩
    rintro txn ⟨⟩
    exact heffect
  | recorded env db call record chain htxn _ =>
    refine ⟨hs.committed, ?_⟩
    rintro txn ⟨⟩
    exact hs.pending (.stepped db call) (Option.mem_def.mpr htxn)
  | refused env db call e chain _ _ => exact ⟨hs.committed, by rintro txn ⟨⟩⟩
  | committed db call record htxn =>
    have heffect : MissionEffect store s.db (some call) db :=
      hs.pending (.appended db call record) (Option.mem_def.mpr htxn)
    exact ⟨hI _ _ _ hs.committed heffect, by rintro txn ⟨⟩⟩
  | failed db call record _ => exact ⟨hs.committed, by rintro txn ⟨⟩⟩
  | other env call _ => exact ⟨hs.committed, hs.pending⟩

/-- What every operation keeps holds of the committed tables in every state reached. -/
theorem run_db {I : MissionDb → Prop} (h0 : I .init)
    (hI : ∀ db call db', I db → MissionEffect store db call db' → I db') {chain : AuditDb}
    {es : List MissionEvent} {s : MissionSystem}
    (h : run (missionStep P store) (.init chain) es = some s) : I s.db := by
  have hinit : TablesInv store I (.init chain) := ⟨h0, by rintro txn ⟨⟩⟩
  exact (run_invariant (I := TablesInv store I) (fun _ _ _ ht hu => step_tables hI ht hu) hinit
    h).committed

/-! ## Runs of whole operations -/

/-- A platform whose digests are short. -/
def shortPlatform : Platform := ⟨KeySort.insertion, fun b => b.take 1⟩

/-- An anchored chain on which nothing refuses and nothing fails. -/
def wrappedChain : ChainEnv := ⟨none, wrappedEnv, lit "2026-01-01T00:00:00+00:00", none⟩

/-- An operation that the chain records and that is committed. -/
def commits (op : MissionOp) : List MissionEvent :=
  [.call op (lit "2026-01-01T00:00:00+00:00"), .append wrappedChain, .commit true]

end Mission
