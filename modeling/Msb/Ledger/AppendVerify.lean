import Msb.Infra.Run
import Msb.Ledger.AuditChain

/-!
# What was appended verifies

Any number of appenders on one chain: each call passes its preflight at one time and runs its
write transaction at another, and the transactions come one after the other in any order. The
hash that `append` takes from the payload in memory is the hash that `verify_chain` takes from
the stored text exactly when the payload is `Stable`: in every dict of it, the keys in sorted
order have strictly increasing JSON texts. String keys always do; the integers `9, 10` do not.

* `recomputed_iff_stable` — one row verifies exactly when its payload is stable
* `run_verifies_iff_stable` — a whole chain verifies exactly when all its payloads are stable
-/

namespace Ledger

open Py HashChain Machine

variable {P : Platform}

/-! ## One row -/

/-- The text stored for a payload, read back. -/
theorem loads_stored (v : PyVal) :
    loads (render plainStyle (toJson P.keySort false v))
      = .ok (ofJson (toJson P.keySort false v)) := by
  rw [loads, parse_render plainStyle rfl]

variable {call : AppendCall} {ts : Str} {record : AuditRecord}

/-- What the write transaction does. -/
theorem insertRow_eq_ok {db db' : AuditDb} :
    insertRow P db call ts = .ok (record, db') ↔
      computeHash P db.lastHash call.component call.eventType call.payload ts =
      .ok record.recordHash ∧
      db.nextSeq ≤ maxRowid ∧
      record = ⟨db.nextSeq, call.component, call.eventType, call.payload, ts, db.lastHash,
        record.recordHash⟩ ∧
      db' = db.push call.component call.eventType
        (render plainStyle (toJson P.keySort false call.payload)) ts db.lastHash
        record.recordHash := by
  simp only [insertRow, bind_eq_ok, dumps, Bool.false_and, Bool.false_eq_true, if_false,
    Except.ok.injEq, exists_eq_left']
  constructor
  · rintro ⟨h, hh, hrow⟩
    split at hrow
    · cases hrow
    · next hmax =>
      obtain ⟨rfl, rfl⟩ := Prod.mk.inj (Except.ok.inj hrow)
      exact ⟨hh, Int.not_lt.mp hmax, rfl, rfl⟩
  · rintro ⟨hh, hmax, hrec, rfl⟩
    refine ⟨record.recordHash, hh, ?_⟩
    rw [if_neg (Int.not_lt.mpr hmax), ← hrec]

/-- The row that the transaction adds. -/
def AuditRecord.stored (P : Platform) (r : AuditRecord) : AuditRow :=
  ⟨r.seq, r.component, r.eventType, render plainStyle (toJson P.keySort false r.payload),
    r.timestamp, r.prevHash, r.recordHash⟩

/-- The new row links to the last one, and its hash is the one of the payload in memory. -/
theorem insertRow_spec {db db' : AuditDb} (h : insertRow P db call ts = .ok (record, db')) :
    db'.rows = db.rows ++ [record.stored P] ∧ db'.chainMeta = db.chainMeta ∧
      record.prevHash = db.lastHash ∧ record.seq = db.nextSeq ∧
      record.payload = call.payload ∧
      computeHash P record.prevHash record.component record.eventType record.payload
        record.timestamp = .ok record.recordHash := by
  obtain ⟨hhash, -, hrec, rfl⟩ := insertRow_eq_ok.mp h
  rw [hrec]
  exact ⟨rfl, rfl, rfl, rfl, rfl, hhash⟩

/-- A row written for a stable payload is recomputed to the same hash. -/
theorem recomputed_of_stable
    (hhash : computeHash P record.prevHash record.component record.eventType record.payload
      record.timestamp = .ok record.recordHash)
    (hstable : Stable P.keySort record.payload) :
    recomputed P (record.stored P) = .ok record.recordHash := by
  refine recomputed_eq_ok.mpr ⟨_, loads_stored record.payload, ?_⟩
  rw [← hhash]
  refine computeHash_congr ?_ (reload_of_stable P.keySort _ hstable)
  rw [sortable_of_parsed _ (parsed_ofJson _), (computeHash_eq_ok.mp hhash).1]

/-- **One row verifies exactly when its payload is stable.** -/
theorem recomputed_iff_stable (hP : Function.Injective P.sha256)
    (hhash : computeHash P record.prevHash record.component record.eventType record.payload
      record.timestamp = .ok record.recordHash) :
    recomputed P (record.stored P) = .ok record.recordHash ↔ Stable P.keySort record.payload := by
  refine ⟨fun hrec => ?_, recomputed_of_stable hhash⟩
  obtain ⟨payload, hload, hre⟩ := recomputed_eq_ok.mp hrec
  obtain rfl : _ = payload := Except.ok.inj ((loads_stored record.payload).symm.trans hload)
  have htree := (computeHash_inj hP hre hhash).2.2.2.1
  exact (reload_eq_iff P.keySort _).mp htree

/-! ## The appenders -/

/-- The database, the calls that have passed their preflight and not yet written, and the records
returned so far. -/
structure AppendState where
  db : AuditDb
  pending : List (AppendEnv × AppendCall)
  returned : List AuditRecord

/-- An empty chain. -/
def AppendState.init : AppendState := ⟨AuditDb.init, [], []⟩

inductive AppendEvent where
  /-- A call runs its preflight. -/
  | enter (env : AppendEnv) (call : AppendCall)
  /-- The `i`-th pending call runs its write transaction. -/
  | write (i : Nat) (timestamp : Str)

/-- A call that raises, in the preflight or in the transaction, is gone without a trace. -/
def appendStep (P : Platform) (s : AppendState) : AppendEvent → Option AppendState
  | .enter env call =>
    match preflight env s.db call with
    | .ok _ => some { s with pending := s.pending ++ [(env, call)] }
    | .error _ => some s
  | .write i timestamp =>
    match s.pending[i]? with
    | none => none
    | some (env, call) =>
      match writeRow P env s.db call timestamp with
      | .ok (record, db) => some ⟨db, s.pending.eraseIdx i, s.returned ++ [record]⟩
      | .error _ => some { s with pending := s.pending.eraseIdx i }

/-- A call that raises leaves the database as it was. -/
theorem append_error {env : AppendEnv} {db : AuditDb} {e : PyError}
    (h : (append P env db call ts).result = .error e) : (append P env db call ts).db = db := by
  unfold append at h ⊢
  split at h
  · cases h
  · split <;> rfl

/-! ## The invariant of the table -/

/-- The table holds what was returned, linked, under the hashes of the payloads in memory. -/
structure Written (P : Platform) (s : AppendState) : Prop where
  rows : s.db.rows = s.returned.map (AuditRecord.stored P)
  linked : Linked AuditRow.prevHash AuditRow.recordHash genesisHash s.db.rows
  hashed : ∀ r ∈ s.returned,
    computeHash P r.prevHash r.component r.eventType r.payload r.timestamp = .ok r.recordHash

theorem written_init : Written P AppendState.init := ⟨rfl, trivial, by simp [AppendState.init]⟩

theorem writeRow_eq_ok {env : AppendEnv} {db : AuditDb} {p : AuditRecord × AuditDb} :
    writeRow P env db call ts = .ok p ↔ env.failure = none ∧ insertRow P db call ts = .ok p := by
  unfold writeRow
  cases env.failure with
  | none => simp
  | some m => simp

/-- What one event can do: nothing to the table, or one transaction. -/
theorem appendStep_cases {s t : AppendState} {e : AppendEvent} (h : appendStep P s e = some t) :
    (t.db = s.db ∧ t.returned = s.returned) ∨
      ∃ call ts record, insertRow P s.db call ts = .ok (record, t.db) ∧
        t.returned = s.returned ++ [record] := by
  cases e with
  | enter env call =>
    left
    simp only [appendStep] at h
    split at h <;> obtain rfl := Option.some.inj h <;> exact ⟨rfl, rfl⟩
  | write i ts =>
    simp only [appendStep] at h
    split at h
    · cases h
    · next env call _ =>
      split at h
      · next record db hwrite =>
        obtain rfl := Option.some.inj h
        exact Or.inr ⟨call, ts, record, (writeRow_eq_ok.mp hwrite).2, rfl⟩
      · obtain rfl := Option.some.inj h
        exact Or.inl ⟨rfl, rfl⟩

theorem Written.step {s t : AppendState} {e : AppendEvent} (hs : Written P s)
    (h : appendStep P s e = some t) : Written P t := by
  rcases appendStep_cases h with ⟨hdb, hret⟩ | ⟨call, ts, record, hins, hret⟩
  · exact ⟨by rw [hdb, hret, hs.rows], by rw [hdb]; exact hs.linked, by rw [hret]; exact hs.hashed⟩
  · obtain ⟨hrows, -, hprev, -, -, hhash⟩ := insertRow_spec hins
    refine ⟨?_, ?_, ?_⟩
    · rw [hrows, hret, hs.rows, List.map_append, List.map_singleton]
    · rw [hrows, linked_concat]
      exact ⟨hs.linked, hprev.trans (lastHash_eq_tip s.db)⟩
    · rw [hret, List.forall_mem_append]
      exact ⟨hs.hashed, by simpa using hhash⟩

theorem written_of_run {es : List AppendEvent} {s : AppendState}
    (h : run (appendStep P) AppendState.init es = some s) : Written P s :=
  run_invariant (fun _ _ _ ht hu => ht.step hu) written_init h

/-! ## The whole chain -/

/-- `verify_chain` finds the chain valid and counts every append that returned: each row links to
the row before it, and the hash recomputed from its stored text is the one `append` computed. -/
structure Verifies (P : Platform) (s : AppendState) : Prop where
  valid : verifyChain P (.ok s.db.rows) = .ok (.valid s.returned.length)
  linked : Linked AuditRow.prevHash AuditRow.recordHash genesisHash s.db.rows
  hashed : ∀ r ∈ s.db.rows, recomputed P r = .ok r.recordHash

theorem Written.verifies_iff_hashed {s : AppendState} (hs : Written P s) :
    Verifies P s ↔ ∀ r ∈ s.returned, recomputed P (r.stored P) = .ok r.recordHash := by
  have hrows : (∀ r ∈ s.db.rows, recomputed P r = .ok r.recordHash)
      ↔ ∀ r ∈ s.returned, recomputed P (r.stored P) = .ok r.recordHash := by
    rw [hs.rows, List.forall_mem_map]
    rfl
  rw [← hrows]
  refine ⟨fun h => h.hashed, fun h => ⟨?_, hs.linked, h⟩⟩
  exact verifyChain_valid_iff.mpr ⟨⟨hs.linked, h⟩, by rw [hs.rows, List.length_map]⟩

/-- **The chain verifies when every payload is stable**, and, where SHA-256 has no collision, only
then. -/
theorem run_verifies_iff_stable {es : List AppendEvent} {s : AppendState}
    (h : run (appendStep P) AppendState.init es = some s) :
    ((∀ r ∈ s.returned, Stable P.keySort r.payload) → Verifies P s) ∧
      (Function.Injective P.sha256 → Verifies P s →
        ∀ r ∈ s.returned, Stable P.keySort r.payload) := by
  have hs := written_of_run h
  rw [hs.verifies_iff_hashed]
  refine ⟨fun hstable r hr => ?_, fun hP hre r hr => ?_⟩
  · exact recomputed_of_stable (hs.hashed r hr) (hstable r hr)
  · exact (recomputed_iff_stable hP (hs.hashed r hr)).mp (hre r hr)

/-! ### Runs -/

/-- The environment of a wrapped chain: nothing refuses and nothing fails. -/
def wrappedEnv : AppendEnv where
  anchored := true
  allowKeyless := false
  allowKeylessEnv := false
  anchorFile := .missing
  anchorPath := []
  dbPath := []
  resolve := some
  defaultChain := false
  keyConfigured := false
  writeAllowed := .ok ()
  failure := none

/-- One append of `payload` on an empty chain. -/
def oneAppend (payload : PyVal) : List AppendEvent :=
  [.enter wrappedEnv ⟨lit "svc", lit "evt", payload⟩, .write 0 (lit "2026-01-01T00:00:00+00:00")]

/-- The rows after appending the payloads one after the other. -/
def rowsOf (payloads : List PyVal) : List AuditRow :=
  ((run (appendStep Platform.tagged) AppendState.init (payloads.flatMap oneAppend)).map
    fun s => s.db.rows).getD []

/-- A nested payload with string keys. -/
def nestedPayload : PyVal :=
  .dict [(.str (lit "b"), .list [.dict [(.str (lit "y"), .int 1), (.str (lit "x"), .int 2)]]),
    (.str (lit "a"), .tuple [.none, .bool true])]

theorem run_verifies_nested : ∃ s, run (appendStep Platform.tagged) AppendState.init
    (oneAppend nestedPayload) = some s ∧ s.returned.length = 1 ∧ Verifies Platform.tagged s := by
  have hrun : ((run (appendStep Platform.tagged) AppendState.init (oneAppend nestedPayload)).map
      fun s => (s.returned.length, s.returned.all fun r => strKeyed r.payload))
      = some (1, true) := by decide +kernel
  obtain ⟨s, hs, hret⟩ := Option.map_eq_some_iff.mp hrun
  simp only [Prod.mk.injEq, List.all_eq_true] at hret
  refine ⟨s, hs, hret.1, (run_verifies_iff_stable hs).1 fun r hr => ?_⟩
  exact stable_of_strKeyed _ _ (hret.2 r hr)

/-- `append` accepts the payload `{"m": {9: None, 10: None}}` and `verify_chain` then reports a
break. -/
theorem run_intKeyed_broken :
    (run (appendStep Platform.tagged) AppendState.init
        (oneAppend (.dict [(.str (lit "m"), .dict [(.int 9, .none), (.int 10, .none)])]))).map
      (fun s => (s.returned.length, verifyChain Platform.tagged (.ok s.db.rows)))
      = some (1, .ok (.broken 1 hashMismatch)) := by
  decide +kernel

end Ledger
