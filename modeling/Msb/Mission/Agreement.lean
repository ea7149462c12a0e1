import Msb.Mission.Authority

/-!
# The store and the chain agree

What is committed is on the chain, in the same order, and what the chain alone holds comes from a
commit that failed. This needs a chain that records nothing where it raises: an `AnchoredAuditChain`
writes the row, and then raises where it cannot write the new anchor.

* `step_agreement` — what one event does to both stores
* `run_agreement` — the agreement, along runs whose refused appends record nothing
* `not_missionAgreement` — a run where the anchor fails after the row is written
-/

namespace Mission

open Py Ledger Machine

variable {P : Platform} {store : MissionStore} {s t : MissionSystem}

/-! ## What the chain records -/

/-- The record is the one of the event. -/
structure Records (call : AppendCall) (record : AuditRecord) : Prop where
  component : record.component = call.component
  eventType : record.eventType = call.eventType
  payload : record.payload = call.payload

/-- `append` writes the row of its call, or nothing. -/
theorem append_cases (env : AppendEnv) (db : AuditDb) (call : AppendCall) (timestamp : Str) :
    (∃ record, (append P env db call timestamp).result = .ok record ∧ Records call record ∧
      (append P env db call timestamp).db.rows = db.rows ++ [record.stored P]) ∨
    ∃ e, (append P env db call timestamp).result = .error e ∧
      (append P env db call timestamp).db = db := by
  unfold append
  rcases hw : preflight env db call >>= fun _ => writeRow P env db call timestamp with
    e | ⟨record, db'⟩
  · refine Or.inr ?_
    dsimp only
    rcases latches e with - | message
    · exact ⟨e, rfl, rfl⟩
    · exact ⟨_, rfl, rfl⟩
  · refine Or.inl ⟨record, rfl, ?_⟩
    obtain ⟨-, -, hrow⟩ := bind_eq_ok.mp hw
    unfold writeRow at hrow
    split at hrow
    · cases hrow
    · obtain ⟨-, -, hrec, -⟩ := insertRow_eq_ok.mp hrow
      refine ⟨?_, (insertRow_spec hrow).1⟩
      rw [hrec]
      exact ⟨rfl, rfl, rfl⟩

/-- The chain records an event and returns, or it raises. Then it holds one row more at most, and
that only where the anchor fails. -/
theorem chainAppend_cases (env : ChainEnv) (chain : AuditDb) (call : AppendCall) :
    (∃ record, (chainAppend P env chain call).1 = .ok record ∧ Records call record ∧
      (chainAppend P env chain call).2.rows = chain.rows ++ [record.stored P]) ∨
    ∃ e, (chainAppend P env chain call).1 = .error e ∧
      ((chainAppend P env chain call).2.rows = chain.rows ∨
        env.append.anchored = true ∧ env.anchorFailure ≠ none ∧ ∃ record, Records call record ∧
          (chainAppend P env chain call).2.rows = chain.rows ++ [record.stored P]) := by
  unfold chainAppend
  rcases env.unavailable with - | e
  swap
  · exact Or.inr ⟨e, rfl, Or.inl rfl⟩
  dsimp only
  rcases append_cases (P := P) env.append chain call env.timestamp with
    ⟨record, hresult, hrec, hrows⟩ | ⟨e, hresult, hdb⟩
  · rw [hresult]
    rcases ha : env.append.anchored with - | -
    · exact Or.inl ⟨record, rfl, hrec, hrows⟩
    rcases hf : env.anchorFailure with - | e
    · exact Or.inl ⟨record, rfl, hrec, hrows⟩
    · exact Or.inr ⟨e, rfl, Or.inr ⟨rfl, by simp, record, hrec, hrows⟩⟩
  · rw [hresult, hdb]
    exact Or.inr ⟨e, rfl, Or.inl rfl⟩

/-! ## The agreement -/

/-- The rows of the store on the chain. -/
def missionRows (chain : AuditDb) : List AuditRow :=
  chain.rows.filter fun r => r.component = chainComponent

/-- An event that the chain holds, and whether its transaction was committed. -/
structure LogEntry where
  call : AppendCall
  record : AuditRecord
  committed : Bool

/-- The committed events of a type. -/
def committedCalls (log : List LogEntry) (eventType : Str) : List AppendCall :=
  ((log.filter LogEntry.committed).map LogEntry.call).filter fun c => c.eventType = eventType

/-- The record that an open transaction has on the chain. -/
def MissionSystem.inFlight (s : MissionSystem) : List AuditRecord :=
  match s.txn with
  | some (.appended _ _ record) => [record]
  | _ => []

/-- The events of the chain are, in order: the committed rows of each table, the records whose
commit has failed, and the record of the open transaction. -/
structure Corresponds (P : Platform) (s : MissionSystem) (log : List LogEntry) : Prop where
  chain : missionRows s.chain =
    log.map (fun e => e.record.stored P) ++ s.inFlight.map fun r => r.stored P
  records : ∀ e ∈ log, Records e.call e.record
  types : ∀ e ∈ log, e.call.eventType = lit "mission.created" ∨
    e.call.eventType = lit "mission.version" ∨ e.call.eventType = lit "mission.transition"
  missions : s.db.missions.map MissionRow.call = committedCalls log (lit "mission.created")
  versions : s.db.versions.map VersionRow.call = committedCalls log (lit "mission.version")
  transitions : s.db.transitions.map TransitionRow.call =
    committedCalls log (lit "mission.transition")
  lost : (log.filter fun e => !e.committed).map LogEntry.record = s.lost

/-- The tables agree with themselves. -/
structure TablesAgree (db : MissionDb) : Prop where
  state : ∀ m ∈ db.missions, m.state =
    ((db.history m.missionId).getLast?.map TransitionRow.toState).getD .draft
  versions : ∀ missionId kind, (db.versionsOf missionId kind).map VersionRow.version =
    List.range' 1 (db.versionsOf missionId kind).length

/-- Both stores agree, and an operation that raises before its append changes neither. -/
structure Agreement (P : Platform) (store : MissionStore) (s : MissionSystem) : Prop where
  events : ∃ log, Corresponds P s log
  tables : TablesAgree s.db
  raises : ∀ op now e, s.txn = none → op.step P store now s.db = .error e →
    missionStep P store s (.call op now) = some s

/-! ## The tables -/

/-- What the tables need to agree: a mission has one row, and a transition has a mission. -/
structure TablesOk (db : MissionDb) : Prop extends TablesAgree db where
  ids : (db.missions.map MissionRow.missionId).Nodup
  known : ∀ t ∈ db.transitions, ∃ m ∈ db.missions, m.missionId = t.missionId

/-- The number after the latest version, where the versions are numbered from 1. -/
theorem latest_number {db : MissionDb} {missionId : Str} {kind : VersionKind}
    (hnum : (db.versionsOf missionId kind).map VersionRow.version =
      List.range' 1 (db.versionsOf missionId kind).length) :
    ((latest db missionId kind).map VersionRow.version).getD 0 =
      (db.versionsOf missionId kind).length := by
  unfold latest
  generalize db.versionsOf missionId kind = l at hnum ⊢
  have hrange : ∀ n, n ∈ l.map VersionRow.version ↔ 1 ≤ n ∧ n ≤ l.length := by
    intro n
    rw [hnum, List.mem_range'_1]
    omega
  rcases hmax : l.argmax VersionRow.version with - | v
  · rw [List.argmax_eq_none.mp hmax]
    rfl
  · have hv : v ∈ l := List.argmax_mem hmax
    have hle := ((hrange v.version).mp (List.mem_map_of_mem hv)).2
    have hpos : 1 ≤ l.length := List.length_pos_of_mem hv
    obtain ⟨w, hw, hlast⟩ := List.mem_map.mp ((hrange l.length).mpr ⟨hpos, le_refl _⟩)
    have hge : w.version ≤ v.version := List.le_of_mem_argmax hw hmax
    show v.version = l.length
    omega

theorem versionsOf_concat (db : MissionDb) (v : VersionRow) (missionId : Str) (kind : VersionKind) :
    { db with versions := db.versions ++ [v] }.versionsOf missionId kind =
      db.versionsOf missionId kind ++
        if v.missionId = missionId ∧ v.kind = kind then [v] else [] := by
  simp only [MissionDb.versionsOf, List.filter_append, List.filter_singleton]
  by_cases h : v.missionId = missionId ∧ v.kind = kind <;> simp [h]

theorem effect_tables {db db' : MissionDb} {call : Option AppendCall} (hinv : TablesOk db)
    (heffect : MissionEffect store db call db') : TablesOk db' := by
  cases heffect with
  | same => exact hinv
  | create m hdraft _ hfresh =>
    refine ⟨⟨?_, hinv.versions⟩, ?_, ?_⟩
    · intro x hx
      rcases List.mem_append.mp hx with hx | hx
      · exact hinv.state x hx
      · obtain rfl := List.mem_singleton.mp hx
        -- a new id has no history
        have hempty : MissionDb.history { db with missions := db.missions ++ [x] }
            x.missionId = [] := by
          refine List.filter_eq_nil_iff.mpr fun t ht => ?_
          obtain ⟨y, hy, hid⟩ := hinv.known t ht
          simpa [← hid] using hfresh y hy
        rw [hempty, hdraft]
        rfl
    · exact ids_create hinv.ids hfresh
    · intro t ht
      obtain ⟨x, hx, hid⟩ := hinv.known t ht
      exact ⟨x, List.mem_append_left _ hx, hid⟩
  | version v _ hnumber =>
    refine ⟨⟨hinv.state, ?_⟩, hinv.ids, hinv.known⟩
    intro missionId kind
    rw [versionsOf_concat]
    have hold := hinv.versions missionId kind
    by_cases hv : v.missionId = missionId ∧ v.kind = kind
    · obtain ⟨rfl, rfl⟩ := hv
      rw [latest_number hold] at hnumber
      rw [if_pos ⟨rfl, rfl⟩, List.map_append, hold, List.length_append, List.length_singleton,
        List.range'_concat, List.map_singleton, hnumber]
      simp [Nat.add_comm]
    · rw [if_neg hv, List.append_nil]
      exact hold
  | move m entry hmem hids _ _ _ _ =>
    generalize (if entry.toState = .blockedOnHuman then some m.state else none) = r
    refine ⟨⟨?_, hinv.versions⟩, ?_, ?_⟩
    · intro x hx
      obtain ⟨y, hy, rfl⟩ := List.mem_map.mp hx
      by_cases hid : y.missionId = entry.missionId
      · rw [if_pos hid, history_move, if_pos hid.symm]
        simp
      · rw [if_neg hid, history_move, if_neg (fun h => hid h.symm), List.append_nil]
        exact hinv.state y hy
    · rw [ids_move]
      exact hinv.ids
    · intro t ht
      have hknown : ∃ y ∈ db.missions, y.missionId = t.missionId := by
        rcases List.mem_append.mp ht with ht | ht
        · exact hinv.known t ht
        · obtain rfl := List.mem_singleton.mp ht
          exact ⟨m, hmem, hids.symm⟩
      obtain ⟨y, hy, hid⟩ := hknown
      have hmapped : t.missionId ∈ (db.move entry r).missions.map MissionRow.missionId := by
        rw [ids_move]
        exact List.mem_map.mpr ⟨y, hy, hid⟩
      exact List.mem_map.mp hmapped

/-! ## The events -/

theorem committedCalls_concat (log : List LogEntry) (e : LogEntry) (eventType : Str) :
    committedCalls (log ++ [e]) eventType = committedCalls log eventType ++
      if e.committed ∧ e.call.eventType = eventType then [e.call] else [] := by
  unfold committedCalls
  rw [List.filter_append, List.map_append, List.filter_append]
  rcases hc : e.committed with - | -
  · simp [hc]
  · by_cases ht : e.call.eventType = eventType <;> simp [hc, ht]

/-- A move changes nothing of a mission that its event speaks of. -/
theorem missionCalls_move (db : MissionDb) (entry : TransitionRow) (r : Option MissionState) :
    (db.move entry r).missions.map MissionRow.call = db.missions.map MissionRow.call := by
  rw [MissionDb.move, List.map_map]
  refine List.map_congr_left fun y _ => ?_
  by_cases hid : y.missionId = entry.missionId <;> simp [hid, MissionRow.call]

/-- What an operation adds to the tables is what its event says. -/
structure AddsCall (db db' : MissionDb) (call : AppendCall) : Prop where
  component : call.component = chainComponent
  types : call.eventType = lit "mission.created" ∨ call.eventType = lit "mission.version" ∨
    call.eventType = lit "mission.transition"
  missions : db'.missions.map MissionRow.call = db.missions.map MissionRow.call ++
    if call.eventType = lit "mission.created" then [call] else []
  versions : db'.versions.map VersionRow.call = db.versions.map VersionRow.call ++
    if call.eventType = lit "mission.version" then [call] else []
  transitions : db'.transitions.map TransitionRow.call = db.transitions.map TransitionRow.call ++
    if call.eventType = lit "mission.transition" then [call] else []

theorem MissionRow.call_eventType (m : MissionRow) : m.call.eventType = lit "mission.created" := rfl

theorem VersionRow.call_eventType (v : VersionRow) : v.call.eventType = lit "mission.version" := rfl

theorem TransitionRow.call_eventType (t : TransitionRow) :
    t.call.eventType = lit "mission.transition" := rfl

theorem created_ne_version : lit "mission.created" ≠ lit "mission.version" := by decide

theorem created_ne_transition : lit "mission.created" ≠ lit "mission.transition" := by decide

theorem version_ne_transition : lit "mission.version" ≠ lit "mission.transition" := by decide

theorem effect_addsCall {db db' : MissionDb} {call : AppendCall}
    (heffect : MissionEffect store db (some call) db') : AddsCall db db' call := by
  generalize hcall : some call = c at heffect
  cases heffect with
  | same => cases hcall
  | create m _ _ _ =>
    obtain rfl := Option.some.inj hcall
    refine ⟨rfl, Or.inl rfl, ?_, ?_, ?_⟩ <;> rw [m.call_eventType]
    · rw [if_pos rfl, List.map_append, List.map_singleton]
    · rw [if_neg created_ne_version, List.append_nil]
    · rw [if_neg created_ne_transition, List.append_nil]
  | version v _ _ =>
    obtain rfl := Option.some.inj hcall
    refine ⟨rfl, Or.inr (Or.inl rfl), ?_, ?_, ?_⟩ <;> rw [v.call_eventType]
    · rw [if_neg created_ne_version.symm, List.append_nil]
    · rw [if_pos rfl, List.map_append, List.map_singleton]
    · rw [if_neg version_ne_transition, List.append_nil]
  | move m entry _ _ _ _ _ _ =>
    obtain rfl := Option.some.inj hcall
    refine ⟨rfl, Or.inr (Or.inr rfl), ?_, ?_, ?_⟩ <;> rw [entry.call_eventType]
    · rw [missionCalls_move, if_neg created_ne_transition.symm, List.append_nil]
    · rw [if_neg version_ne_transition.symm, List.append_nil]
      rfl
    · rw [if_pos rfl, MissionDb.move, List.map_append, List.map_singleton]

theorem missionRows_concat {chain chain' : AuditDb} {record : AuditRecord} {call : AppendCall}
    (hrec : Records call record) (hrows : chain'.rows = chain.rows ++ [record.stored P]) :
    missionRows chain' = missionRows chain ++
      if call.component = chainComponent then [record.stored P] else [] := by
  have hcomp : (record.stored P).component = call.component := hrec.component
  unfold missionRows
  rw [hrows, List.filter_append, List.filter_singleton, hcomp]
  by_cases h : call.component = chainComponent <;> simp [h]

/-- A chain append that raises leaves no record of the event. -/
def RefusesCleanly (P : Platform) (s : MissionSystem) (e : MissionEvent) : Prop :=
  ∀ env db call err, e = .append env → s.txn = some (.stepped db call) →
    (chainAppend P env s.chain call).1 = .error err →
    (chainAppend P env s.chain call).2.rows = s.chain.rows

/-- A chain whose anchor is written whenever a record is refuses cleanly. -/
theorem refusesCleanly_of_anchored {env : ChainEnv}
    (h : env.append.anchored = true → env.anchorFailure = none) :
    RefusesCleanly P s (.append env) := by
  rintro env' db call err ⟨⟩ - herr
  rcases chainAppend_cases (P := P) env s.chain call with ⟨record, hok, -⟩ | ⟨e, -, hrows | hbad⟩
  · rw [hok] at herr
    cases herr
  · exact hrows
  · exact absurd (h hbad.1) hbad.2.1

/-- The open transaction's record is the one of its event. -/
def MissionSystem.RecordOk (s : MissionSystem) : Prop :=
  ∀ db call record, s.txn = some (.appended db call record) → Records call record

/-- What one event does to both stores. -/
theorem step_agreement {e : MissionEvent} {I : MissionDb → Prop} (htab : TablesInv store I s)
    (hok : s.RecordOk) (hlog : ∃ log, Corresponds P s log) (hclean : RefusesCleanly P s e)
    (h : missionStep P store s e = some t) : t.RecordOk ∧ ∃ log, Corresponds P t log := by
  obtain ⟨log, hc⟩ := hlog
  cases missionStep_move h with
  | stay op now => exact ⟨hok, log, hc⟩
  -- up to the commit the tables stay: only the chain and what is in flight matter
  | opened op now step call hfree _ _ =>
    have hflight : s.inFlight = [] := by simp [MissionSystem.inFlight, hfree]
    refine ⟨by rintro db call' record ⟨⟩, log, ?_⟩
    have hchain := hc.chain
    rw [hflight] at hchain
    exact ⟨hchain, hc.records, hc.types, hc.missions, hc.versions, hc.transitions, hc.lost⟩
  | recorded env db call record chain htxn happend =>
    have heffect : MissionEffect store s.db (some call) db :=
      htab.pending (.stepped db call) (Option.mem_def.mpr htxn)
    have hflight : s.inFlight = [] := by simp [MissionSystem.inFlight, htxn]
    rcases chainAppend_cases (P := P) env s.chain call with ⟨record', hrec, hrecords, hrows⟩
      | ⟨e, herr, -⟩
    · rw [happend] at hrec hrows
      obtain rfl := Except.ok.inj hrec
      refine ⟨?_, log, ?_⟩
      · rintro db' call' record' ⟨⟩
        exact hrecords
      · have hchain := missionRows_concat hrecords hrows
        rw [if_pos (effect_addsCall heffect).component, hc.chain, hflight, List.map_nil,
          List.append_nil] at hchain
        exact ⟨hchain, hc.records, hc.types, hc.missions, hc.versions, hc.transitions, hc.lost⟩
    · rw [happend] at herr
      cases herr
  -- a chain that refuses cleanly has recorded nothing
  | refused env db call err chain htxn happend =>
    have hrows := hclean env db call err rfl htxn (by rw [happend])
    rw [happend] at hrows
    have hflight : s.inFlight = [] := by simp [MissionSystem.inFlight, htxn]
    have hchain := hc.chain
    rw [hflight, missionRows, ← hrows] at hchain
    refine ⟨by rintro db call' record ⟨⟩, log, ?_⟩
    exact ⟨hchain, hc.records, hc.types, hc.missions, hc.versions, hc.transitions, hc.lost⟩
  | committed db call record htxn =>
    have heffect : MissionEffect store s.db (some call) db :=
      htab.pending (.appended db call record) (Option.mem_def.mpr htxn)
    have hadds := effect_addsCall heffect
    have hflight : s.inFlight = [record] := by simp [MissionSystem.inFlight, htxn]
    refine ⟨by rintro db call' record ⟨⟩, log ++ [⟨call, record, true⟩], ?_⟩
    refine ⟨?_, ?_, ?_, ?_, ?_, ?_, ?_⟩
    · rw [hc.chain, hflight]
      simp [MissionSystem.inFlight]
    · rw [List.forall_mem_append]
      exact ⟨hc.records, by simpa using hok db call record htxn⟩
    · rw [List.forall_mem_append]
      exact ⟨hc.types, by simpa using hadds.types⟩
    · rw [committedCalls_concat, ← hc.missions, hadds.missions]
      simp
    · rw [committedCalls_concat, ← hc.versions, hadds.versions]
      simp
    · rw [committedCalls_concat, ← hc.transitions, hadds.transitions]
      simp
    · rw [List.filter_append, List.map_append, hc.lost]
      simp
  -- a commit that fails leaves its record in the chain, where it is entered as lost
  | failed db call record htxn =>
    have heffect : MissionEffect store s.db (some call) db :=
      htab.pending (.appended db call record) (Option.mem_def.mpr htxn)
    have hadds := effect_addsCall heffect
    have hflight : s.inFlight = [record] := by simp [MissionSystem.inFlight, htxn]
    refine ⟨by rintro db call' record ⟨⟩, log ++ [⟨call, record, false⟩], ?_⟩
    refine ⟨?_, ?_, ?_, ?_, ?_, ?_, ?_⟩
    · rw [hc.chain, hflight]
      simp [MissionSystem.inFlight]
    · rw [List.forall_mem_append]
      exact ⟨hc.records, by simpa using hok db call record htxn⟩
    · rw [List.forall_mem_append]
      exact ⟨hc.types, by simpa using hadds.types⟩
    · rw [committedCalls_concat, ← hc.missions]
      simp
    · rw [committedCalls_concat, ← hc.versions]
      simp
    · rw [committedCalls_concat, ← hc.transitions]
      simp
    · rw [List.filter_append, List.map_append, hc.lost]
      simp
  -- a record of another component is none of the missions'
  | other env call hforeign =>
    refine ⟨hok, log, ?_⟩
    have hsame : missionRows (chainAppend P env s.chain call).2 = missionRows s.chain := by
      have hcall : ∀ record, Records call record →
          (chainAppend P env s.chain call).2.rows = s.chain.rows ++ [record.stored P] →
          missionRows (chainAppend P env s.chain call).2 = missionRows s.chain := by
        intro record hrec hrows
        rw [missionRows_concat hrec hrows, if_neg hforeign, List.append_nil]
      rcases chainAppend_cases (P := P) env s.chain call with
        ⟨record, -, hrec, hrows⟩ | ⟨e, -, hrows | ⟨-, -, record, hrec, hrows⟩⟩
      · exact hcall record hrec hrows
      · rw [missionRows, hrows, missionRows]
      · exact hcall record hrec hrows
    refine ⟨?_, hc.records, hc.types, hc.missions, hc.versions, hc.transitions, hc.lost⟩
    rw [hsame]
    exact hc.chain

/-! ## Every run -/

/-- In every state that the operations of any number of callers lead to, with any failures of the
chain and of the commit, both stores agree. -/
def MissionAgreement (P : Platform) (store : MissionStore) : Prop :=
  ∀ chain es s, missionRows chain = [] → run (missionStep P store) (.init chain) es = some s →
    Agreement P store s

theorem corresponds_init {chain : AuditDb} (hchain : missionRows chain = []) :
    Corresponds P (.init chain) [] where
  chain := hchain
  records := fun _ he => absurd he List.not_mem_nil
  types := fun _ he => absurd he List.not_mem_nil
  missions := rfl
  versions := rfl
  transitions := rfl
  lost := rfl

theorem tablesOk_init : TablesOk .init where
  state := fun _ hm => absurd hm List.not_mem_nil
  versions := fun _ _ => rfl
  ids := List.nodup_nil
  known := fun _ ht => absurd ht List.not_mem_nil

/-- **Agreement.** In a run whose refused chain appends leave no record, both stores agree in every
state reached. -/
theorem run_agreement (chain : AuditDb) (hchain : missionRows chain = []) (es : List MissionEvent)
    (hclean : Along (missionStep P store) (RefusesCleanly P) (.init chain) es) (s : MissionSystem)
    (hrun : run (missionStep P store) (.init chain) es = some s) : Agreement P store s := by
  have hinv : TablesInv store TablesOk s ∧ s.RecordOk ∧ ∃ log, Corresponds P s log := by
    refine run_invariant_along (Q := RefusesCleanly P)
      (I := fun u => TablesInv store TablesOk u ∧ u.RecordOk ∧ ∃ log, Corresponds P u log)
      ?_ ?_ hclean hrun
    · intro e _ u v hu hq hv
      exact ⟨step_tables (fun _ _ _ hdb heffect => effect_tables hdb heffect) hu.1 hv,
        step_agreement hu.1 hu.2.1 hu.2.2 hq hv⟩
    · exact ⟨⟨tablesOk_init, by rintro txn ⟨⟩⟩, by rintro db call record ⟨⟩, [],
        corresponds_init hchain⟩
  obtain ⟨htab, -, hlog⟩ := hinv
  refine ⟨hlog, htab.committed.toTablesAgree, ?_⟩
  intro op now e hfree hraise
  simp [missionStep, hfree, hraise]

/-- Here no append is refused, and the second commit fails. -/
def failedCommitRun : List MissionEvent :=
  commits (.create (lit "m1") (lit "objective") (lit "hermes") none) ++
    [.call (goTo "RESEARCHING" "hermes" none) (lit "2026-01-01T00:00:00+00:00"),
      .append wrappedChain, .commit false]

theorem along_wrapped {es : List MissionEvent} (hes : ∀ e ∈ es, ∀ env, e = .append env →
    env = wrappedChain) : ∀ s, Along (missionStep P store) (RefusesCleanly P) s es := by
  induction es with
  | nil => exact fun _ => trivial
  | cons e es ih =>
    intro s
    refine ⟨?_, fun t _ => ih (fun f hf => hes f (List.mem_cons_of_mem _ hf)) t⟩
    intro env db call err he htxn herr
    obtain rfl := hes e List.mem_cons_self env he
    exact refusesCleanly_of_anchored (fun _ => rfl) wrappedChain db call err rfl htxn herr

theorem run_agreement_failedCommit : ∃ s, run (missionStep shortPlatform oneOperator) (.init .init)
      failedCommitRun = some s ∧ s.lost.length = 1 ∧
    Agreement shortPlatform oneOperator s := by
  have hrun : ((run (missionStep shortPlatform oneOperator) (.init .init) failedCommitRun).map
      fun s => s.lost.length) = some 1 := by decide +kernel
  obtain ⟨s, hs, hlost⟩ := Option.map_eq_some_iff.mp hrun
  refine ⟨s, hs, hlost, run_agreement .init rfl failedCommitRun (along_wrapped ?_ _) s hs⟩
  simp only [failedCommitRun, commits, List.mem_append, List.mem_cons, List.not_mem_nil, or_false]
  rintro e ((rfl | rfl | rfl) | rfl | rfl | rfl) env ⟨⟩ <;> rfl

/-- An anchored chain that cannot write its anchor. -/
def anchorFails : ChainEnv :=
  { wrappedChain with anchorFailure := some (.osError (lit "disk full")) }

/-- The chain records the new mission and then raises. -/
def anchorFailsRun : List MissionEvent :=
  [.call (.create (lit "m1") (lit "objective") (lit "hermes") none)
    (lit "2026-01-01T00:00:00+00:00"), .append anchorFails]

/-- The chain holds an event that the store does not, and no commit has failed. -/
theorem not_missionAgreement : ¬ MissionAgreement shortPlatform oneOperator := by
  intro h
  have hrun : ((run (missionStep shortPlatform oneOperator) (.init .init) anchorFailsRun).map
      fun s => (s.db, (missionRows s.chain).length, s.inFlight.length, s.lost.length)) =
        some (.init, 1, 0, 0) := by
    decide +kernel
  obtain ⟨s, hs, hobs⟩ := Option.map_eq_some_iff.mp hrun
  simp only [Prod.mk.injEq, List.length_eq_zero_iff] at hobs
  obtain ⟨hdb, hrows, hflight, hlost⟩ := hobs
  obtain ⟨log, hc⟩ := (h .init anchorFailsRun s rfl hs).events
  have hone : log.length = 1 := by
    rw [hc.chain, hflight] at hrows
    simpa using hrows
  obtain ⟨e, rfl⟩ := List.length_eq_one_iff.mp hone
  have hcreated := hc.missions
  have hversion := hc.versions
  have htransition := hc.transitions
  rw [hdb] at hcreated hversion htransition
  rcases hcom : e.committed with - | -
  · have hl := hc.lost
    rw [hlost] at hl
    simp [hcom] at hl
  · rcases hc.types e List.mem_cons_self with ht | ht | ht
    · simp [committedCalls, hcom, ht, MissionDb.init] at hcreated
    · simp [committedCalls, hcom, ht, MissionDb.init] at hversion
    · simp [committedCalls, hcom, ht, MissionDb.init] at htransition

end Mission
