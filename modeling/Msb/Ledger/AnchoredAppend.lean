import Msb.Ledger.AnchorSpec
import Msb.Ledger.AppendVerify

/-!
# `AnchoredAuditChain.append`

The wrapper appends to the chain and then anchors the new tip. The record is committed before the
signature is asked for, so what fails afterwards raises with the record in the chain.

* `anchoredAppend_error_iff` — when a call that raises has added nothing
* `recordedOnce_iff` — when a caller who tries again records the event at most once
-/

namespace Ledger

open Py

variable (P : Platform)

/-- What one call meets: what the append of the chain does, the rows that `anchor` reads back, the
backend as it answers now, and the write of the anchor file. -/
structure AnchoredCall where
  env : AppendEnv
  timestamp : Str
  anchor : ChainAnchor
  dbPath : Str
  /-- The text of an error of the query that reads the chain for the snapshot. -/
  readFailure : Option Str
  now : Str
  writeFailure : Option PyError

/-- The chain and the files of its anchor. -/
structure AnchoredState where
  db : AuditDb
  store : AnchorStore

/-- The chain as `anchor` reads it. -/
def AnchoredCall.chain (a : AnchoredCall) (db : AuditDb) : Chain :=
  ⟨a.dbPath, a.readFailure.elim (.ok db.rows) .error⟩

/-- `self.anchor.anchor(self.chain)`: the new file replaces the old one or leaves it. -/
def AnchoredCall.reanchor (a : AnchoredCall) (db : AuditDb) (store : AnchorStore) :
    Except PyError AnchorDoc × AnchorStore :=
  match a.writeFailure, a.anchor.anchor P (a.chain db) a.now store with
  | some e, (.ok _, _) => (.error e, store)
  | _, out => out

/-- `AnchoredAuditChain.append` -/
def AnchoredCall.append (a : AnchoredCall) (s : AnchoredState) (call : AppendCall) :
    Except PyError AuditRecord × AnchoredState :=
  let out := Ledger.append P a.env s.db call a.timestamp
  match out.result with
  | .error e => (.error e, ⟨out.db, s.store⟩)
  | .ok record =>
    match a.reanchor P out.db s.store with
    | (.error e, store) => (.error e, ⟨out.db, store⟩)
    | (.ok _, store) => (.ok record, ⟨out.db, store⟩)

/-- The calls of a caller who tries again until one returns, each with the state it finds. -/
def made (call : AppendCall) : List AnchoredCall → AnchoredState →
    List (AnchoredCall × AnchoredState)
  | [], _ => []
  | a :: as, s =>
    match a.append P s call with
    | (.ok _, _) => [(a, s)]
    | (.error _, s') => (a, s) :: made call as s'

/-- The state after them. -/
def afterCalls (call : AppendCall) : List AnchoredCall → AnchoredState → AnchoredState
  | [], s => s
  | a :: as, s =>
    match a.append P s call with
    | (.ok _, s') => s'
    | (.error _, s') => afterCalls call as s'

/-! ## All or nothing -/

/-- A call that raises has added nothing to the chain. -/
def AllOrNothing (call : AppendCall) (a : AnchoredCall) (s : AnchoredState) : Prop :=
  ∀ e, (a.append P s call).1 = .error e → (a.append P s call).2.db.rows = s.db.rows

/-- A caller who tries again records the event at most once: no call that raised has added anything,
and over all of them the chain has grown by one record at most. -/
def RecordedOnce (call : AppendCall) (attempts : List AnchoredCall) (s : AnchoredState) : Prop :=
  (∀ m ∈ made P call attempts s, AllOrNothing P call m.1 m.2) ∧
    (afterCalls P call attempts s).db.rows.length ≤ s.db.rows.length + 1

/-- The tip of `db` is read, signed and written. -/
def AnchoredCall.Anchors (a : AnchoredCall) (db : AuditDb) : Prop :=
  a.writeFailure = none ∧ ∃ backend snap canonical signature, a.anchor = .signing backend ∧
    snapshot P (a.chain db) a.now = .ok snap ∧ canonicalBytes P snap.dict = .ok canonical ∧
    backend.sign canonical = .ok signature

/-- The append of the chain raises itself, or the new tip is anchored. -/
def Undivided (call : AppendCall) (a : AnchoredCall) (s : AnchoredState) : Prop :=
  ∀ record, (Ledger.append P a.env s.db call a.timestamp).result = .ok record →
    a.Anchors P (Ledger.append P a.env s.db call a.timestamp).db

section

variable {P}

/-- An append that returns has added a row. -/
theorem append_rows {env : AppendEnv} {db : AuditDb} {call : AppendCall} {ts : Str}
    {record : AuditRecord} (h : (Ledger.append P env db call ts).result = .ok record) :
    (Ledger.append P env db call ts).db.rows = db.rows ++ [record.stored P] := by
  unfold Ledger.append at h ⊢
  cases hrun : preflight env db call >>= fun _ => writeRow P env db call ts with
  | error e =>
    rw [hrun] at h
    dsimp only at h
    split at h <;> cases h
  | ok out =>
    rw [hrun] at h
    dsimp only at h ⊢
    obtain rfl := Except.ok.inj h
    obtain ⟨_, -, hwrite⟩ := bind_eq_ok.mp hrun
    unfold writeRow at hwrite
    cases hfail : env.failure with
    | some message => simp [hfail] at hwrite
    | none =>
      simp only [hfail] at hwrite
      exact (insertRow_spec hwrite).1

/-- Anchoring goes through exactly when the tip is read, signed and written. -/
theorem reanchor_ok_iff {a : AnchoredCall} {db : AuditDb} {store : AnchorStore} :
    (∃ doc, (a.reanchor P db store).1 = .ok doc) ↔ a.Anchors P db := by
  unfold AnchoredCall.reanchor AnchoredCall.Anchors ChainAnchor.anchor
  cases hsigned : a.anchor.signedDoc P (a.chain db) a.now with
  | error e =>
    refine iff_of_false ?_ ?_
    · cases a.writeFailure <;> simp
    · rintro ⟨-, backend, snap, canonical, signature, hsigning, hsnap, hcanonical, hsign⟩
      rw [hsigning] at hsigned
      simp [ChainAnchor.signedDoc, hsnap, hcanonical, hsign, bind, Except.bind] at hsigned
  | ok doc =>
    cases hwrite : a.writeFailure with
    | some e => simp
    | none =>
      refine iff_of_true ⟨doc, rfl⟩ ⟨rfl, ?_⟩
      cases hanchor : a.anchor with
      | verifyOnly k algorithm =>
        rw [hanchor] at hsigned
        cases hsigned
      | signing backend =>
        rw [hanchor] at hsigned
        obtain ⟨snap, hsnap, hsigned⟩ := bind_eq_ok.mp hsigned
        obtain ⟨canonical, hcanonical, hsigned⟩ := bind_eq_ok.mp hsigned
        obtain ⟨signature, hsign, -⟩ := bind_eq_ok.mp hsigned
        exact ⟨backend, snap, canonical, signature, rfl, hsnap, hcanonical, hsign⟩

/-- What a call does: the append raises and nothing is added; or a row is added, and then anchoring
decides. -/
theorem anchoredAppend_cases (a : AnchoredCall) (s : AnchoredState) (call : AppendCall) :
    (∃ e, (Ledger.append P a.env s.db call a.timestamp).result = .error e ∧
      (a.append P s call).1 = .error e ∧ (a.append P s call).2.db.rows = s.db.rows) ∨
    (∃ record, (Ledger.append P a.env s.db call a.timestamp).result = .ok record ∧
      (a.append P s call).2.db.rows = s.db.rows ++ [record.stored P] ∧
      ((∃ r, (a.append P s call).1 = .ok r) ↔
        a.Anchors P (Ledger.append P a.env s.db call a.timestamp).db)) := by
  cases hresult : (Ledger.append P a.env s.db call a.timestamp).result with
  | error e =>
    refine .inl ⟨e, rfl, ?_, ?_⟩
    · simp only [AnchoredCall.append, hresult]
    · simp only [AnchoredCall.append, hresult]
      rw [append_error hresult]
  | ok record =>
    refine .inr ⟨record, rfl, ?_, ?_⟩
    · rw [← append_rows hresult]
      simp only [AnchoredCall.append, hresult]
      split <;> rfl
    · rw [← @reanchor_ok_iff P a _ s.store]
      simp only [AnchoredCall.append, hresult]
      split
      next e store hreanchor => simp [hreanchor]
      next doc store hreanchor => simp [hreanchor]

/-- **When a call that raises has added nothing.** -/
theorem anchoredAppend_error_iff {a : AnchoredCall} {s : AnchoredState} {call : AppendCall} :
    AllOrNothing P call a s ↔ Undivided P call a s := by
  rcases anchoredAppend_cases (P := P) a s call with
    ⟨e, hinner, houter, hrows⟩ | ⟨record, hinner, hrows, hanchors⟩
  · refine iff_of_true (fun _ _ => hrows) fun record hrecord => ?_
    rw [hinner] at hrecord
    cases hrecord
  · constructor
    · intro hall _ _
      rw [← hanchors]
      cases hcall : (a.append P s call).1 with
      | ok r => exact ⟨r, rfl⟩
      | error e =>
        have hsame := hall e hcall
        rw [hrows] at hsame
        simp at hsame
    · intro hundivided e he
      obtain ⟨r, hr⟩ := hanchors.mpr (hundivided record hinner)
      rw [he] at hr
      cases hr

/-- Where no call that raised has added anything, one record at most is added. -/
theorem afterCalls_length {call : AppendCall} : ∀ {attempts : List AnchoredCall}
    {s : AnchoredState}, (∀ m ∈ made P call attempts s, AllOrNothing P call m.1 m.2) →
    (afterCalls P call attempts s).db.rows.length ≤ s.db.rows.length + 1
  | [], s, _ => by simp [afterCalls]
  | a :: as, s, hall => by
    unfold made at hall
    unfold afterCalls
    cases hcall : a.append P s call with
    | mk result s' =>
      cases result with
      | ok record =>
        simp only
        rcases anchoredAppend_cases (P := P) a s call with
          ⟨e, -, houter, -⟩ | ⟨record, -, hrows, -⟩
        · rw [hcall] at houter
          cases houter
        · rw [hcall] at hrows
          rw [hrows, List.length_append, List.length_singleton]
      | error e =>
        simp only [hcall, List.forall_mem_cons] at hall
        have hsame := hall.1 e (by rw [hcall])
        rw [hcall] at hsame
        rw [← hsame]
        exact afterCalls_length hall.2

/-- **When a caller who tries again records the event at most once**: at each call that is made, the
append of the chain raises itself, or the new tip is anchored. -/
theorem recordedOnce_iff (call : AppendCall) (attempts : List AnchoredCall) (s : AnchoredState) :
    RecordedOnce P call attempts s ↔
      ∀ m ∈ made P call attempts s, Undivided P call m.1 m.2 := by
  constructor
  · intro h m hm
    exact anchoredAppend_error_iff.mp (h.1 m hm)
  · intro h
    have hall : ∀ m ∈ made P call attempts s, AllOrNothing P call m.1 m.2 :=
      fun m hm => anchoredAppend_error_iff.mpr (h m hm)
    exact ⟨hall, afterCalls_length hall⟩

end

/-- A backend whose device does not answer. -/
def lockedBackend : SigningBackend :=
  ⟨.secp256r1, [4], fun _ => .error (.raised (lit "SigningUnavailable") (lit "no device"))⟩

/-- A call that meets it. -/
def lockedCall : AnchoredCall where
  env := wrappedEnv
  timestamp := []
  anchor := .signing lockedBackend
  dbPath := []
  readFailure := none
  now := []
  writeFailure := none

/-- The call raises with the record in the chain, and a second one puts it there again. -/
theorem lockedCall_recorded_twice : ¬ ∀ (P : Platform) (call : AppendCall)
    (attempts : List AnchoredCall) (s : AnchoredState), RecordedOnce P call attempts s := by
  intro h
  have htwice := (h .tagged ⟨lit "svc", lit "evt", .none⟩ [lockedCall, lockedCall]
    ⟨.init, ⟨none, none⟩⟩).2
  have hlength : (afterCalls .tagged ⟨lit "svc", lit "evt", .none⟩ [lockedCall, lockedCall]
      ⟨.init, ⟨none, none⟩⟩).db.rows.length = 2 := by decide +kernel
  rw [hlength] at htwice
  simp [AuditDb.init] at htwice

end Ledger
