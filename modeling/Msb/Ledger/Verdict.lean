import Msb.Ledger.AnchorDaemon

/-!
# Does the chain get a verdict

`verify_chain` and `quarantine` on a table of any contents. Only the query is guarded: a payload
that cannot be read, or whose canonical text cannot be encoded, raises out of the loop.

Besides the text itself, what `json` takes depends on the interpreter: nesting that is too deep
for its stack and integers of too many digits are refused. `limits` stands for that.

* `verdict_iff` — the table gets a verdict exactly when every row up to the first break is hashable
-/

namespace Ledger

open Py HashChain

variable (P : Platform) (limits : Str → Option PyError)

/-- The hash of a row as `verify_chain` recomputes it, within the limits of the interpreter. -/
def recomputedIn (row : AuditRow) : Except PyError Str :=
  match loads row.payload with
  | .error e => .error e
  | .ok payload =>
    match limits row.payload with
    | some e => .error e
    | none => computeHash P row.prevHash row.component row.eventType payload row.timestamp

/-- The loop of `verify_chain`: `none` when no row breaks the chain. -/
def verifyRowsIn (expectedPrev : Str) : List AuditRow → Except PyError (Option ChainVerdict)
  | [] => .ok none
  | row :: rows => do
    let h ← recomputedIn P limits row
    if row.prevHash ≠ expectedPrev then .ok (some (.broken row.seq prevMismatch))
    else if h ≠ row.recordHash then .ok (some (.broken row.seq hashMismatch))
    else verifyRowsIn row.recordHash rows

/-- `verify_chain`, on what the query for all rows returned or raised. -/
def verifyChainIn (read : Except Str (List AuditRow)) : Except PyError ChainVerdict :=
  match read with
  | .error message => .ok (.unreadable (lit "audit store unreadable: " ++ message))
  | .ok rows => do
    match ← verifyRowsIn P limits genesisHash rows with
    | some verdict => .ok verdict
    | none => .ok (.valid rows.length)

/-- `result.get("broken_at_seq")` -/
def ChainVerdict.brokenAtSeq : ChainVerdict → Option Int
  | .broken seq _ => some seq
  | _ => none

/-- What `quarantine` returns. -/
structure QuarantineResult where
  quarantined : Bool
  brokenAtSeq : Option Int
  reason : Option Str
  state : Option Str
  deriving DecidableEq

/-- `str(x)` of a number or `None`. -/
def strOf (x : Option Int) : Str := x.elim (lit "None") fun i => (intLit i).text

/-- `quarantine`: the verdict is written into `chain_meta`. -/
def quarantine (now : Str) (db : AuditDb) : Except PyError (QuarantineResult × AuditDb) := do
  let result ← verifyChainIn P limits (.ok db.rows)
  if result.isValid then
    .ok (⟨false, none, some (lit "chain already valid"), none⟩,
      { db with chainMeta :=
        { db.chainMeta with state := some (lit "active"), brokenAtSeq := some [] } })
  else
    .ok (⟨true, result.brokenAtSeq, result.reason, some (lit "quarantined")⟩,
      { db with chainMeta :=
        { db.chainMeta with
          state := some (lit "quarantined")
          brokenAtSeq := some (strOf result.brokenAtSeq)
          reason := some (result.reason.getD (lit "None"))
          quarantinedAt := some now } })

/-! ## What a verdict is to be -/

/-- The rows as they are when nothing was changed: linked, with payloads that parse and hashes
that are the recomputed ones. -/
structure Intact (rows : List AuditRow) : Prop where
  linked : Linked AuditRow.prevHash AuditRow.recordHash genesisHash rows
  hashed : ∀ row ∈ rows, recomputedIn P limits row = .ok row.recordHash

/-- `chain_meta` names the break that `verdict` found. -/
structure Recorded (now : Str) (verdict : ChainVerdict) (m : ChainMeta) : Prop where
  state : m.state = some (lit "quarantined")
  brokenAtSeq : m.brokenAtSeq = some (strOf verdict.brokenAtSeq)
  reason : m.reason = verdict.reason
  quarantinedAt : m.quarantinedAt = some now

/-- `verify_chain` returns on the table, its verdict is right, and `quarantine` records a chain
that is not valid, whose rows it leaves alone. -/
def GivesVerdict (now : Str) (db : AuditDb) : Prop :=
  ∃ verdict, verifyChainIn P limits (.ok db.rows) = .ok verdict ∧
    (verdict.isValid = true ↔ Intact P limits db.rows) ∧
    (verdict.isValid = false → ∃ result db', quarantine P limits now db = .ok (result, db') ∧
      result.quarantined = true ∧ db'.rows = db.rows ∧ Recorded now verdict db'.chainMeta)

/-- A row whose payload is JSON within the limits, and whose canonical text has a UTF-8 form: its
strings hold no lone surrogate, which JSON can write as an escape. -/
def Hashable (row : AuditRow) : Prop :=
  ∃ payload, loads row.payload = .ok payload ∧ limits row.payload = none ∧
    (encode (render plainStyle (recordTree row.prevHash row.component row.eventType
      (toJson P.keySort true payload) row.timestamp))).isSome = true

section

variable {P limits}

/-- A row has a recomputed hash exactly when it is hashable. -/
theorem exists_recomputedIn_iff {row : AuditRow} :
    (∃ h, recomputedIn P limits row = .ok h) ↔ Hashable P limits row := by
  unfold recomputedIn Hashable
  cases hload : loads row.payload with
  | error e => simp
  | ok payload =>
    have hsort : sortable payload = true := by
      unfold loads at hload
      cases hparse : parse row.payload with
      | none => simp [hparse] at hload
      | some j =>
        rw [hparse] at hload
        rw [← Except.ok.inj hload]
        exact sortable_of_parsed _ (parsed_ofJson j)
    cases hlimit : limits row.payload with
    | some e => simp
    | none =>
      simp only [computeHash_eq_ok, hsort, Option.isSome_iff_exists, Except.ok.injEq,
        exists_eq_left', true_and]
      constructor
      · rintro ⟨h, b, hb, -⟩
        exact ⟨b, hb⟩
      · rintro ⟨b, hb⟩
        exact ⟨_, b, hb, rfl⟩

/-- Rows that are linked and hashed are passed over. -/
theorem verifyRowsIn_append {before after : List AuditRow} : ∀ {g : Str},
    Linked AuditRow.prevHash AuditRow.recordHash g before →
    (∀ row ∈ before, recomputedIn P limits row = .ok row.recordHash) →
    verifyRowsIn P limits g (before ++ after)
      = verifyRowsIn P limits (tip AuditRow.recordHash g before) after := by
  induction before with
  | nil => intro g _ _; rfl
  | cons row before ih =>
    intro g hlinked hhashed
    rw [linked_cons] at hlinked
    rw [List.forall_mem_cons] at hhashed
    rw [List.cons_append, verifyRowsIn, hhashed.1, tip_cons]
    simp only [bind, Except.bind, hlinked.1, ne_eq, not_true_eq_false, if_false]
    exact ih hlinked.2 hhashed.2

/-- What the loop finds: nothing, on rows that are linked and hashed; a break or an exception at
the first row that is not. -/
theorem verifyRowsIn_cases (rows : List AuditRow) : ∀ g : Str,
    (Linked AuditRow.prevHash AuditRow.recordHash g rows ∧
      (∀ row ∈ rows, recomputedIn P limits row = .ok row.recordHash) ∧
      verifyRowsIn P limits g rows = .ok none) ∨
    ∃ before row after, rows = before ++ row :: after ∧
      Linked AuditRow.prevHash AuditRow.recordHash g before ∧
      (∀ r ∈ before, recomputedIn P limits r = .ok r.recordHash) ∧
      ¬ (row.prevHash = tip AuditRow.recordHash g before ∧
        recomputedIn P limits row = .ok row.recordHash) := by
  induction rows with
  | nil => intro g; exact .inl ⟨trivial, by simp, rfl⟩
  | cons row rows ih =>
    intro g
    by_cases hrow : row.prevHash = g ∧ recomputedIn P limits row = .ok row.recordHash
    · rcases ih row.recordHash with ⟨hlinked, hhashed, hnone⟩
        | ⟨before, bad, after, rfl, hlinked, hhashed, hbad⟩
      · refine .inl ⟨⟨hrow.1, hlinked⟩, List.forall_mem_cons.mpr ⟨hrow.2, hhashed⟩, ?_⟩
        rw [verifyRowsIn, hrow.2]
        simpa only [bind, Except.bind, hrow.1, ne_eq, not_true_eq_false, if_false] using hnone
      · exact .inr ⟨row :: before, bad, after, rfl, ⟨hrow.1, hlinked⟩,
          List.forall_mem_cons.mpr ⟨hrow.2, hhashed⟩, hbad⟩
    · exact .inr ⟨[], row, rows, rfl, trivial, by simp, hrow⟩

/-- At a row that breaks the chain and is hashable, a break is found. -/
theorem verifyRowsIn_broken {row : AuditRow} {rows : List AuditRow} {g h : Str}
    (hrow : recomputedIn P limits row = .ok h)
    (hbad : ¬ (row.prevHash = g ∧ recomputedIn P limits row = .ok row.recordHash)) :
    ∃ reason, verifyRowsIn P limits g (row :: rows) = .ok (some (.broken row.seq reason)) := by
  rw [verifyRowsIn, hrow]
  simp only [bind, Except.bind]
  by_cases hprev : row.prevHash = g
  · have hhash : h ≠ row.recordHash := by
      rintro rfl
      exact hbad ⟨hprev, hrow⟩
    exact ⟨hashMismatch, by simp [hprev, hhash]⟩
  · exact ⟨prevMismatch, by simp [hprev]⟩

/-- **The table gets a verdict exactly when every row up to the first break is hashable.** -/
theorem verdict_iff (now : Str) (db : AuditDb) :
    GivesVerdict P limits now db ↔ ∀ before row after, db.rows = before ++ row :: after →
      Intact P limits before → Hashable P limits row := by
  constructor
  · rintro ⟨verdict, hverdict, -, -⟩ before row after hrows hintact
    obtain ⟨found, hfound, -⟩ := bind_eq_ok.mp hverdict
    rw [hrows, verifyRowsIn_append hintact.linked hintact.hashed, verifyRowsIn] at hfound
    obtain ⟨h, hh, -⟩ := bind_eq_ok.mp hfound
    exact exists_recomputedIn_iff.mp ⟨h, hh⟩
  · intro hall
    rcases verifyRowsIn_cases (P := P) db.rows genesisHash with
      ⟨hlinked, hhashed, hnone⟩ | ⟨before, row, after, hrows, hlinked, hhashed, hbad⟩
    · refine ⟨.valid db.rows.length, ?_, iff_of_true rfl ⟨hlinked, hhashed⟩, by
        simp [ChainVerdict.isValid]⟩
      simp only [verifyChainIn, hnone, bind, Except.bind]
    · obtain ⟨h, hh⟩ := exists_recomputedIn_iff.mpr
        (hall before row after hrows ⟨hlinked, hhashed⟩)
      obtain ⟨reason, hfound⟩ := @verifyRowsIn_broken P limits row after _ _ hh hbad
      have hverdict : verifyChainIn P limits (.ok db.rows) = .ok (.broken row.seq reason) := by
        simp only [verifyChainIn, hrows, verifyRowsIn_append hlinked hhashed, hfound, bind,
          Except.bind]
      refine ⟨_, hverdict, iff_of_false (by simp [ChainVerdict.isValid]) ?_, fun _ => ?_⟩
      · -- an intact table would be intact at the break
        rintro ⟨hlinked', hhashed'⟩
        rw [hrows, linked_append, linked_cons] at hlinked'
        exact hbad ⟨hlinked'.2.1, hhashed' row (by simp [hrows])⟩
      · have hq : quarantine P limits now db = .ok (⟨true, some row.seq, some reason,
            some (lit "quarantined")⟩, { db with chainMeta := { db.chainMeta with
              state := some (lit "quarantined"), brokenAtSeq := some (intLit row.seq).text
              reason := some reason, quarantinedAt := some now } }) := by
          unfold quarantine
          rw [hverdict]
          rfl
        exact ⟨_, _, hq, rfl, rfl, rfl, rfl, rfl, rfl⟩

end

/-- A table with one row, whose payload is not JSON. -/
def garbled : AuditDb :=
  ⟨[⟨1, lit "node", lit "started", lit "x", lit "2026-01-01T00:00:00+00:00", genesisHash,
    genesisHash⟩], 1, {}, List.pairwise_singleton _ _⟩

/-- `verify_chain` and `quarantine` raise on a table with one garbled payload. -/
theorem garbled_no_verdict : ¬ ∀ (P : Platform) (limits : Str → Option PyError) (now : Str)
    (db : AuditDb), GivesVerdict P limits now db := by
  intro h
  obtain ⟨verdict, hverdict, -⟩ := h Platform.tagged (fun _ => none) [] garbled
  have hraises : verifyChainIn Platform.tagged (fun _ => none) (.ok garbled.rows)
      = .error .jsonDecodeError := by decide +kernel
  rw [hraises] at hverdict
  simp at hverdict

end Ledger
