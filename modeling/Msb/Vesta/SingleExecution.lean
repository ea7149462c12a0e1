import Msb.Vesta.Permit

/-!
# Contracts are carried out once

Any number of processes submit, approve, reject and void the contracts of both stores at the same
time. A call of `approve_and_execute` may carry out the contract from the moment its own transaction
has turned `PENDING` into `APPROVED`, and until it calls the writer or the executor: that call holds
the permit of the approval. No row is `PENDING` twice, so there is one permit for each approval, and
it is used once.

* `follows_program` — the services keep to the permit
* `single_execution` — what every execution rests on, in every run
-/

namespace Vesta

open Py Ledger Machine

/-! ## The system -/

/-- The tables of both stores. -/
abbrev Tables := (k : Kind) → List (Approval (Contract k))

/-- What is left to chance in one call: a database error before the commit, and the answers of all
that is not an approval store. -/
structure Chance where
  fault : Option PyError := none
  answer : (c : Call) → c.Answer

/-- A transaction: its table is committed where nothing raises. -/
def commit {α : Type} (k : Kind) (s : Tables) (env : Chance)
    (result : Except PyError (α × List (Approval (Contract k)))) : Except PyError α × Tables :=
  match env.fault, result with
  | some e, _ => (.error e, s)
  | none, .error e => (.error e, s)
  | none, .ok (a, rows) => (.ok a, Function.update s k rows)

/-- What a call does. -/
def handle (lib : Library) (s : Tables) (c : Call) (env : Chance) : c.Answer × Tables :=
  match c with
  | .insert k row => commit k s env ((k.store.insert (s k) row).map ((), ·))
  | .approve k approvalId now decidedAt operator =>
    commit k s env (k.store.approve (s k) approvalId lib.fromisoformat now decidedAt operator)
  | .reject k approvalId decidedAt operator reason =>
    commit k s env ((k.store.reject (s k) approvalId decidedAt operator reason).map ((), ·))
  | .void k approvalId decidedAt reason =>
    commit k s env ((k.store.void (s k) approvalId decidedAt reason).map ((), ·))
  | .getApproval k approvalId =>
    (match env.fault with
      | some e => .error e
      | none => k.store.get (s k) approvalId, s)
  | c => (env.answer c, s)

/-- What a process is asked for. `void` is what the watchdog calls. -/
inductive Request where
  | submitWrite (taskId bindId : Str) (contract : WriteContract) (policyVersion expiresAt : Str)
  | submitShell (taskId bindId : Str) (command : PyVal) (policyVersion expiresAt : Str)
  | approveAndExecute (k : Kind) (approvalId operator : Str) (signedProof : PyVal)
  | reject (k : Kind) (approvalId operator reason : Str)
  | void (k : Kind) (approvalId reason : Str)

/-- A method, from its first line on. -/
def start {α : Type} (act : Svc α) : Prog Call Call.Answer Unit :=
  Prog.bind (act {}) fun _ => .done ()

section

variable (P : Platform) (lib : Library) (executor : ShellExecutor)

def Request.program : Request → Prog Call Call.Answer Unit
  | .submitWrite taskId bindId contract policyVersion expiresAt =>
    start (Vesta.submitWrite taskId bindId contract policyVersion expiresAt)
  | .submitShell taskId bindId command policyVersion expiresAt =>
    start (Vesta.submitShell P taskId bindId command policyVersion expiresAt)
  | .approveAndExecute .write approvalId operator signedProof =>
    start (writeAndExecute P lib approvalId operator signedProof)
  | .approveAndExecute .shell approvalId operator signedProof =>
    start (shellAndExecute P lib executor approvalId operator signedProof)
  | .reject .write approvalId operator reason => start (rejectWrite approvalId operator reason)
  | .reject .shell approvalId operator reason => start (rejectShell approvalId operator reason)
  | .void k approvalId reason => start (Vesta.void k approvalId reason)

/-- The contracts, the calls under way and the history of the answers. -/
abbrev System := Pool Nat Request Call Call.Answer Unit Tables

abbrev vestaStep : System → PoolEvent Nat Request Chance → Option System :=
  poolStep (Request.program P lib executor) (handle lib)

/-- No contracts yet. -/
def System.init : System := Pool.init fun _ => []

end

/-! ## What a run may do -/

/-- The approval that a request is to carry out. -/
def Request.approval : Request → Option (Kind × Str)
  | .approveAndExecute k approvalId .. => some (k, approvalId)
  | _ => none

/-- The approval that the transaction has decided: it has left `PENDING`. -/
def decidedBy : (c : Call) → c.Answer → Option (Kind × Str)
  | .approve k approvalId .., .ok _ => some (k, approvalId)
  | .reject k approvalId .., .ok _ => some (k, approvalId)
  | _, _ => none

/-- The approval that the transaction has approved. -/
def grantedBy : (c : Call) → c.Answer → Option (Kind × Str)
  | .approve k approvalId .., .ok false => some (k, approvalId)
  | _, _ => none

/-- The row that the call has inserted. -/
def insertedBy : (c : Call) → c.Answer → Option ((k : Kind) × Approval (Contract k))
  | .insert k row, .ok _ => some ⟨k, row⟩
  | _, _ => none

abbrev Entry := Answered Request Call Call.Answer Tables

def Entry.decided (x : Entry) : Option (Kind × Str) := decidedBy x.call x.answer

def Entry.granted (x : Entry) : Option (Kind × Str) := grantedBy x.call x.answer

def Entry.inserted (x : Entry) : Option ((k : Kind) × Approval (Contract k)) :=
  insertedBy x.call x.answer

/-- The approval was pending, and not expired at the time that the call had read. -/
def Entry.OnTime (lib : Library) (x : Entry) (k : Kind) (approvalId : Str) : Prop :=
  ∃ now decidedAt operator row expires, x.call = .approve k approvalId now decidedAt operator ∧
    findApproval (x.before k) approvalId = some row ∧ row.status = .pending ∧
    lib.fromisoformat (replaceZ row.expiresAt) = some expires ∧ expires.aware = true ∧
      now < expires.micros

/-- What one execution rests on. -/
structure Entry.Sound (P : Platform) (lib : Library) (executor : ShellExecutor) (pre : List Entry)
    (x : Entry) (k : Kind) (approvalId : Str) : Prop where
  approval : x.request.approval = some (k, approvalId)
  first : ∀ y ∈ pre, y.call.executes = true → y.request.approval ≠ some (k, approvalId)
  approved : ∃ y ∈ pre, Entry.granted y = some (k, approvalId) ∧ Entry.OnTime lib y k approvalId
  exactly : ∃ y ∈ pre, ∃ row, Entry.inserted y = some ⟨k, row⟩ ∧ row.approvalId = approvalId ∧
    CarriesOut P lib executor k row.contract x.call

/-- What holds of the history of every run, and of its tables: each approval is decided once at
most, and what is carried out is the contract of an approval that was approved in time, for the
first time. -/
structure SingleExecution (P : Platform) (lib : Library) (executor : ShellExecutor) (s : System) :
    Prop where
  decidedOnce : ∀ pre x key, pre ++ [x] <+: s.trace → Entry.decided x = some key →
    ∀ y ∈ pre, Entry.decided y ≠ some key
  settled : ∀ x ∈ s.trace, ∀ k approvalId, Entry.granted x = some (k, approvalId) →
    ∃ row, findApproval (s.shared k) approvalId = some row ∧
    (row.status = .approved ∨ row.status = .void)
  executed : ∀ pre x, pre ++ [x] <+: s.trace → x.call.executes = true →
    ∃ k approvalId, Entry.Sound P lib executor pre x k approvalId

/-! ## The methods of a run -/

section

variable {P : Platform} {lib : Library} {executor : ShellExecutor}

/-- The stage in which a method starts. -/
def Request.stage : Request → Stage
  | .approveAndExecute k approvalId .. => .undecided k approvalId
  | _ => .passive

variable {t : Stage} {k : Kind} {approvalId : Str} {key : Kind × Str} {request : Request}

theorem follows_start {α : Type} {act : Svc α}
    (hact : act.Ensures (permit P lib executor) {} t fun _ _ _ => True) :
    (start act).Ensures (permit P lib executor) t fun _ _ => True :=
  Prog.ensures_bind.mpr hact

theorem follows_quiet {α : Type} {act : Svc α} (hact : act.All Quiet) :
    (start act).Ensures (permit P lib executor) .passive fun _ _ => True :=
  follows_start (ensures_quiet hact nofun fun _ _ => trivial)

/-- **Every method keeps to the permit.** -/
theorem follows_program (request : Request) :
    (request.program P lib executor).Ensures (permit P lib executor) request.stage fun _ _ =>
    True := by
  cases request with
  | submitWrite => exact follows_quiet quiet_submitWrite
  | submitShell => exact follows_quiet quiet_submitShell
  | approveAndExecute k approvalId operator signedProof =>
    cases k with
    | write => exact follows_start writeAndExecute_follows
    | shell => exact follows_start shellAndExecute_follows
  | reject k approvalId operator reason =>
    cases k with
    | write => exact follows_quiet quiet_reject
    | shell => exact follows_quiet quiet_reject
  | void => exact follows_quiet quiet_void

/-! ## What a call does to the tables -/

/-- The cases of `handle`: either a transaction has been committed, or the tables are as they were.
-/
inductive Handled (lib : Library) (s : Tables) : (c : Call) → c.Answer → Tables → Prop where
  | same (c : Call) (answer : c.Answer) (undecided : decidedBy c answer = none)
      (nothing : insertedBy c answer = none) : Handled lib s c answer s
  | inserted (k : Kind) (row : Approval (Contract k))
    (fresh : findApproval (s k) row.approvalId = none) :
      Handled lib s (.insert k row) (.ok ()) (Function.update s k (s k ++ [row]))
  | approved (k : Kind) (approvalId : Str) (now : Int) (decidedAt operator : Str) (expired : Bool)
      (rows : List (Approval (Contract k)))
      (moves : Moves (s k) rows approvalId .pending (if expired then .expired else .approved))
      (onTime : ∃ row expires, findApproval (s k) approvalId = some row ∧ row.status = .pending ∧
        lib.fromisoformat (replaceZ row.expiresAt) = some expires ∧ expires.aware = true ∧
        (expired = true ↔ expires.micros ≤ now)) :
      Handled lib s (.approve k approvalId now decidedAt operator) (.ok expired)
        (Function.update s k rows)
  | rejected (k : Kind) (approvalId decidedAt operator reason : Str)
    (rows : List (Approval (Contract k))) (moves : Moves (s k) rows approvalId .pending .rejected) :
      Handled lib s (.reject k approvalId decidedAt operator reason) (.ok ())
        (Function.update s k rows)
  | voided (k : Kind) (approvalId decidedAt reason : Str) (rows : List (Approval (Contract k)))
      (moves : Moves (s k) rows approvalId .approved .void) :
      Handled lib s (.void k approvalId decidedAt reason) (.ok ()) (Function.update s k rows)

variable {s s' : Tables} {c : Call} {answer : c.Answer} {env : Chance}

theorem commit_cases {α : Type} {result : Except PyError (α × List (Approval (Contract k)))}
    {out : Except PyError α} (h : commit k s env result = (out, s')) :
    (∃ e, out = .error e ∧ s' = s) ∨
      ∃ a rows, result = .ok (a, rows) ∧ out = .ok a ∧ s' = Function.update s k rows := by
  unfold commit at h
  split at h
  · obtain ⟨rfl, rfl⟩ := Prod.mk.inj h
    exact .inl ⟨_, rfl, rfl⟩
  · obtain ⟨rfl, rfl⟩ := Prod.mk.inj h
    exact .inl ⟨_, rfl, rfl⟩
  · obtain ⟨rfl, rfl⟩ := Prod.mk.inj h
    exact .inr ⟨_, _, rfl, rfl, rfl⟩

theorem handle_cases (hnodup : ∀ k, ((s k).map Approval.approvalId).Nodup)
    (h : handle lib s c env = (answer, s')) : Handled lib s c answer s' := by
  cases c with
  | insert k row =>
    rcases commit_cases h with ⟨e, rfl, rfl⟩ | ⟨_, rows, hrows, rfl, rfl⟩
    · exact .same _ _ rfl rfl
    obtain ⟨rows', hinsert, hmk⟩ := map_eq_ok.mp hrows
    obtain ⟨-, rfl⟩ := Prod.mk.inj hmk
    obtain ⟨rfl, hfresh⟩ := ApprovalStore.insert_spec hinsert
    exact .inserted k row hfresh
  | approve k approvalId now decidedAt operator =>
    rcases commit_cases h with ⟨e, rfl, rfl⟩ | ⟨expired, rows, hrows, rfl, rfl⟩
    · exact .same _ _ rfl rfl
    obtain ⟨hmoves, hontime⟩ := ApprovalStore.approve_spec hrows
    exact .approved k approvalId now decidedAt operator expired rows hmoves hontime
  | reject k approvalId decidedAt operator reason =>
    rcases commit_cases h with ⟨e, rfl, rfl⟩ | ⟨_, rows, hrows, rfl, rfl⟩
    · exact .same _ _ rfl rfl
    obtain ⟨rows', hreject, hmk⟩ := map_eq_ok.mp hrows
    obtain ⟨-, rfl⟩ := Prod.mk.inj hmk
    exact .rejected k approvalId decidedAt operator reason
      _ (ApprovalStore.reject_spec (hnodup k) hreject)
  | void k approvalId decidedAt reason =>
    rcases commit_cases h with ⟨e, rfl, rfl⟩ | ⟨_, rows, hrows, rfl, rfl⟩
    · exact .same _ _ rfl rfl
    obtain ⟨rows', hvoid, hmk⟩ := map_eq_ok.mp hrows
    obtain ⟨-, rfl⟩ := Prod.mk.inj hmk
    exact .voided k approvalId decidedAt reason _ (ApprovalStore.void_spec (hnodup k) hvoid)
  | _ =>
    obtain ⟨-, rfl⟩ := Prod.mk.inj h
    exact .same _ _ rfl rfl

/-! ## The tables along a run -/

/-- A status that an approved row can have. -/
def ApprovalStatus.settled (a : ApprovalStatus) : Prop := a = .approved ∨ a = .void

/-- No row is lost or rewritten, no decision is taken back. -/
def Later (s s' : Tables) : Prop :=
  ∀ k approvalId row, findApproval (s k) approvalId = some row →
    ∃ row', findApproval (s' k) approvalId = some row' ∧ row'.Same row ∧
      (row.status ≠ .pending → row'.status ≠ .pending) ∧ (row.status.settled → row'.status.settled)

theorem Later.refl (s : Tables) : Later s s := fun _ _ row h => ⟨row, h, .refl row, id, id⟩

/-- A table in which one row has moved. -/
theorem later_moves {rows : List (Approval (Contract k))} {source target : ApprovalStatus}
    (hmoves : Moves (s k) rows approvalId source target) (htarget : target ≠ .pending)
    (hsettled : source.settled → target.settled) :
    Later s (Function.update s k rows) := by
  intro k' id row hrow
  by_cases hk : k' = k
  · subst hk
    rw [Function.update_self]
    by_cases hid : id = approvalId
    · subst hid
      obtain ⟨old, new, hold, hnew, rfl, rfl, hsame⟩ := hmoves.this
      obtain rfl := Option.some.inj (hrow.symm.trans hold)
      exact ⟨new, hnew, hsame, fun _ => htarget, hsettled⟩
    · exact ⟨row, (hmoves.other id hid).trans hrow, .refl row, fun h => h, fun h => h⟩
  · rw [Function.update_of_ne hk]
    exact ⟨row, hrow, .refl row, fun h => h, fun h => h⟩

theorem Handled.later (h : Handled lib s c answer s') : Later s s' := by
  cases h with
  | same => exact .refl s
  | inserted k row hfresh =>
    intro k' id old hold
    by_cases hk : k' = k
    · subst hk
      refine ⟨old, ?_, .refl old, fun h => h, fun h => h⟩
      rw [Function.update_self]
      unfold findApproval at hold ⊢
      rw [List.find?_append, hold, Option.some_or]
    · rw [Function.update_of_ne hk]
      exact ⟨old, hold, .refl old, fun h => h, fun h => h⟩
  | approved k approvalId now decidedAt operator expired rows hmoves =>
    refine later_moves hmoves ?_ (by simp [ApprovalStatus.settled])
    split <;> nofun
  | rejected k approvalId decidedAt operator reason rows hmoves =>
    exact later_moves hmoves nofun (by simp [ApprovalStatus.settled])
  | voided k approvalId decidedAt reason rows hmoves =>
    exact later_moves hmoves nofun fun _ => .inr rfl

/-- Where a row comes from. -/
theorem Handled.origin (h : Handled lib s c answer s') {row : Approval (Contract k)}
    (hrow : findApproval (s' k) approvalId = some row) :
    (∃ old, findApproval (s k) approvalId = some old ∧ row.Same old) ∨
        insertedBy c answer = some ⟨k, row⟩ := by
  have hmoved : ∀ {k₁ : Kind} {rows : List (Approval (Contract k₁))} {id : Str}
    {source target : ApprovalStatus},
      Moves (s k₁) rows id source target → findApproval (Function.update s k₁ rows k) approvalId =
      some row →
      ∃ old, findApproval (s k) approvalId = some old ∧ row.Same old := by
    intro k₁ rows id source target hmoves hrow
    by_cases hk : k = k₁
    · subst hk
      rw [Function.update_self] at hrow
      by_cases hid : approvalId = id
      · subst hid
        obtain ⟨old, new, hold, hnew, -, -, hsame⟩ := hmoves.this
        obtain rfl := Option.some.inj (hrow.symm.trans hnew)
        exact ⟨old, hold, hsame⟩
      · rw [hmoves.other approvalId hid] at hrow
        exact ⟨row, hrow, .refl row⟩
    · rw [Function.update_of_ne hk] at hrow
      exact ⟨row, hrow, .refl row⟩
  cases h with
  | same => exact .inl ⟨row, hrow, .refl row⟩
  | inserted k₁ new hfresh =>
    by_cases hk : k = k₁
    · subst hk
      rw [Function.update_self] at hrow
      unfold findApproval at hrow
      rw [List.find?_append, Option.or_eq_some_iff] at hrow
      rcases hrow with hrow | ⟨-, hrow⟩
      · exact .inl ⟨row, hrow, .refl row⟩
      · obtain rfl := List.mem_singleton.mp (List.mem_of_find?_eq_some hrow)
        exact .inr rfl
    · rw [Function.update_of_ne hk] at hrow
      exact .inl ⟨row, hrow, .refl row⟩
  | approved k₁ id now decidedAt operator expired rows hmoves => exact .inl (hmoved hmoves hrow)
  | rejected k₁ id decidedAt operator reason rows hmoves => exact .inl (hmoved hmoves hrow)
  | voided k₁ id decidedAt reason rows hmoves => exact .inl (hmoved hmoves hrow)

/-- **Only a pending row is decided.** -/
theorem Handled.decided (h : Handled lib s c answer s')
    (hdecided : decidedBy c answer = some (k, approvalId)) :
    (∃ row, findApproval (s k) approvalId = some row ∧ row.status = .pending) ∧
      ∃ row, findApproval (s' k) approvalId = some row ∧ row.status ≠ .pending := by
  cases h with
  | same _ _ hundecided =>
    rw [hundecided] at hdecided
    cases hdecided
  | inserted => cases hdecided
  | voided => cases hdecided
  | approved k₁ id now decidedAt operator expired rows hmoves =>
    cases hdecided
    obtain ⟨old, new, hold, hnew, hsource, htarget, -⟩ := hmoves.this
    refine ⟨⟨old, hold, hsource⟩, new, by rw [Function.update_self]; exact hnew, ?_⟩
    rw [htarget]
    split <;> nofun
  | rejected k₁ id decidedAt operator reason rows hmoves =>
    cases hdecided
    obtain ⟨old, new, hold, hnew, hsource, htarget, -⟩ := hmoves.this
    exact ⟨⟨old, hold, hsource⟩,
      new, by rw [Function.update_self]; exact hnew, by rw [htarget]; nofun⟩

theorem decided_of_granted (h : grantedBy c answer = some key) : decidedBy c answer = some key := by
  cases c with
  | approve k approvalId now decidedAt operator =>
    match answer, h with
    | .ok false, h => exact h
  | _ => cases h

/-- An approval is on time, and it leaves the row approved. -/
theorem Handled.granted (h : Handled lib s c answer s')
    (hgranted : grantedBy c answer = some (k, approvalId)) :
    Entry.OnTime lib ⟨request, s, c, answer⟩ k approvalId ∧
      ∃ row, findApproval (s' k) approvalId = some row ∧ row.status.settled := by
  have hdecided := decided_of_granted hgranted
  cases h with
  | same _ _ hundecided =>
    rw [hundecided] at hdecided
    cases hdecided
  | inserted => cases hdecided
  | voided => cases hdecided
  | rejected => cases hgranted
  | approved k₁ id now decidedAt operator expired rows hmoves hontime =>
    cases expired with
    | true => cases hgranted
    | false =>
      cases hgranted
      obtain ⟨row, expires, hrow, hpending, hexpires, haware, hnow⟩ := hontime
      obtain ⟨old, new, hold, hnew, hsource, htarget, -⟩ := hmoves.this
      refine ⟨⟨now, decidedAt, operator, row, expires, rfl, hrow, hpending, hexpires, haware, ?_⟩,
        new, ?_, .inl htarget⟩
      · exact not_le.mp fun hle => by simpa using hnow.mpr hle
      · rw [Function.update_self]
        exact hnew

theorem Handled.nodup (h : Handled lib s c answer s')
    (hnodup : ∀ k, ((s k).map Approval.approvalId).Nodup) (k : Kind) :
    ((s' k).map Approval.approvalId).Nodup := by
  have hupdate : ∀ {k₁ : Kind} {rows : List (Approval (Contract k₁))},
    (rows.map Approval.approvalId).Nodup →
      ((Function.update s k₁ rows k).map Approval.approvalId).Nodup := by
    intro k₁ rows hrows
    by_cases hk : k = k₁
    · subst hk
      rwa [Function.update_self]
    · rw [Function.update_of_ne hk]
      exact hnodup k
  cases h with
  | same => exact hnodup k
  | inserted k₁ row hfresh =>
    refine hupdate ?_
    rw [List.map_append]
    refine (hnodup k₁).append (List.nodup_singleton _) ?_
    intro id hid hmem
    obtain rfl := List.mem_singleton.mp hmem
    obtain ⟨old, hold, hsame⟩ := List.mem_map.mp hid
    rw [← hsame, find_of_mem (hnodup k₁) hold] at hfresh
    cases hfresh
  | approved k₁ id now decidedAt operator expired rows hmoves =>
    exact hupdate (hmoves.ids ▸ hnodup k₁)
  | rejected k₁ id decidedAt operator reason rows hmoves => exact hupdate (hmoves.ids ▸ hnodup k₁)
  | voided k₁ id decidedAt reason rows hmoves => exact hupdate (hmoves.ids ▸ hnodup k₁)

/-! ## The history along a run -/

/-- The tables and the history agree. -/
structure TablesInv (lib : Library) (s : Tables) (trace : List Entry) : Prop where
  nodup : ∀ k, ((s k).map Approval.approvalId).Nodup
  decided : ∀ x ∈ trace, ∀ k approvalId, Entry.decided x = some (k, approvalId) →
    ∃ row, findApproval (s k) approvalId = some row ∧ row.status ≠ .pending
  granted : ∀ x ∈ trace, ∀ k approvalId, Entry.granted x = some (k, approvalId) →
    Entry.OnTime lib x k approvalId ∧ ∃ row, findApproval (s k) approvalId = some row ∧
    row.status.settled
  once : ∀ pre x key, pre ++ [x] <+: trace → Entry.decided x = some key → ∀ y ∈ pre,
    Entry.decided y ≠ some key
  recorded : ∀ k approvalId row, findApproval (s k) approvalId = some row →
    ∃ x ∈ trace, ∃ row₀, Entry.inserted x = some ⟨k, row₀⟩ ∧ row.Same row₀

/-- A decision is the first one on its approval. -/
theorem TablesInv.undecided {trace : List Entry} (hinv : TablesInv lib s trace)
    (h : Handled lib s c answer s') (hkey : decidedBy c answer = some key) :
    ∀ y ∈ trace, Entry.decided y ≠ some key := by
  intro y hy hdecided
  obtain ⟨⟨row, hrow, hpending⟩, -⟩ := h.decided hkey
  obtain ⟨row', hrow', hne⟩ := hinv.decided y hy _ _ hdecided
  obtain rfl := Option.some.inj (hrow.symm.trans hrow')
  exact hne hpending

theorem TablesInv.step {trace : List Entry} (hinv : TablesInv lib s trace)
    (h : Handled lib s c answer s')
    (request : Request) :
    TablesInv lib s' (trace ++ [⟨request, s, c, answer⟩]) where
  nodup := h.nodup hinv.nodup
  decided x hx k approvalId hdecided := by
    rcases List.mem_append.mp hx with hx | hx
    · obtain ⟨row, hrow, hne⟩ := hinv.decided x hx k approvalId hdecided
      obtain ⟨row', hrow', -, hkept, -⟩ := h.later k approvalId row hrow
      exact ⟨row', hrow', hkept hne⟩
    · obtain rfl := List.mem_singleton.mp hx
      exact (h.decided hdecided).2
  granted x hx k approvalId hgranted := by
    rcases List.mem_append.mp hx with hx | hx
    · obtain ⟨hontime, row, hrow, hsettled⟩ := hinv.granted x hx k approvalId hgranted
      obtain ⟨row', hrow', -, -, hkept⟩ := h.later k approvalId row hrow
      exact ⟨hontime, row', hrow', hkept hsettled⟩
    · obtain rfl := List.mem_singleton.mp hx
      exact h.granted hgranted
  once pre x key hpre hdecided := by
    rcases List.prefix_concat_iff.mp hpre with heq | hpre
    · obtain ⟨rfl, hx⟩ := List.append_inj' heq rfl
      obtain rfl := List.singleton_inj.mp hx
      exact hinv.undecided h hdecided
    · exact hinv.once pre x key hpre hdecided
  recorded k approvalId row hrow := by
    rcases h.origin hrow with ⟨old, hold, hsame⟩ | hinserted
    · obtain ⟨x, hx, row₀, hx₀, hsame₀⟩ := hinv.recorded k approvalId old hold
      exact ⟨x, List.mem_append_left _ hx, row₀, hx₀, hsame.trans hsame₀⟩
    · exact ⟨_, List.mem_append_right _ (List.mem_singleton_self _), row, hinserted, .refl row⟩

/-! ## The permits along a run -/

/-- The approval that a call holds. -/
def Stage.holds : Stage → Option (Kind × Str)
  | .decided k approvalId => some (k, approvalId)
  | .permit k row => some (k, row.approvalId)
  | _ => none

/-- The permits: who holds one has approved, has not used it, and is the only one. -/
structure PermitInv (P : Platform) (lib : Library) (executor : ShellExecutor) (s : Tables)
    (stage : Nat → Option (Request × Stage)) (trace : List Entry) : Prop where
  undecided : ∀ i request k approvalId, stage i = some (request, .undecided k approvalId) →
    request.approval = some (k, approvalId)
  held : ∀ i request t key, stage i = some (request, t) → t.holds = some key →
    request.approval = some key ∧
    (∃ y ∈ trace, Entry.granted y = some key) ∧ ∀ y ∈ trace, y.call.executes = true →
    y.request.approval ≠ some key
  row : ∀ i request k row, stage i = some (request, .permit k row) →
    ∃ row', findApproval (s k) row.approvalId = some row' ∧ row'.Same row
  unique : ∀ i j request request' t t' key, stage i = some (request, t) →
    stage j = some (request', t') → t.holds = some key → t'.holds = some key → i = j
  executed : ∀ pre x, pre ++ [x] <+: trace → x.call.executes = true →
    ∃ k approvalId, Entry.Sound P lib executor pre x k approvalId

variable {stage : Nat → Option (Request × Stage)} {trace : List Entry}

theorem PermitInv.stop (hinv : PermitInv P lib executor s stage trace) (i : Nat) :
    PermitInv P lib executor s (Function.update stage i none) trace := by
  have hold : ∀ j p, Function.update stage i none j = some p → stage j = some p := by
    intro j p hj
    by_cases hji : j = i
    · subst hji
      rw [Function.update_self] at hj
      cases hj
    · rwa [Function.update_of_ne hji] at hj
  exact ⟨fun j request k id hj => hinv.undecided j request k id (hold j _ hj),
    fun j request t key hj => hinv.held j request t key (hold j _ hj),
    fun j request k row hj => hinv.row j request k row (hold j _ hj),
    fun j j' request request' t t' key hj hj' => hinv.unique j j' request request' t t' key
      (hold j _ hj) (hold j' _ hj'),
    hinv.executed⟩

theorem Request.stage_holds (request : Request) : request.stage.holds = none := by
  cases request <;> rfl

theorem Request.stage_undecided (h : request.stage = .undecided k approvalId) :
    request.approval = some (k, approvalId) := by
  cases request with
  | approveAndExecute =>
    cases h
    rfl
  | _ => cases h

theorem PermitInv.start (hinv : PermitInv P lib executor s stage trace) (i : Nat)
    (request : Request) :
    PermitInv P lib executor s (Function.update stage i (some (request, request.stage))) trace := by
  have hcases : ∀ j p, Function.update stage i (some (request, request.stage)) j = some p →
      stage j = some p ∨ p = (request, request.stage) := by
    intro j p hj
    by_cases hji : j = i
    · subst hji
      rw [Function.update_self] at hj
      exact .inr (Option.some.inj hj).symm
    · rw [Function.update_of_ne hji] at hj
      exact .inl hj
  have hheld : ∀ j req t key, Function.update stage i (some (request, request.stage)) j =
    some (req, t) → t.holds = some key → stage j = some (req, t) := by
    intro j req t key hj hholds
    rcases hcases j _ hj with hj | hj
    · exact hj
    · obtain ⟨-, rfl⟩ := Prod.mk.inj hj
      rw [request.stage_holds] at hholds
      cases hholds
  refine ⟨fun j req k id hj => ?_, fun j req t key hj hholds => ?_, fun j req k row hj => ?_,
    fun j j' req req' t t' key hj hj' hholds hholds' => ?_, hinv.executed⟩
  · rcases hcases j _ hj with hj | hj
    · exact hinv.undecided j req k id hj
    · obtain ⟨rfl, hstage⟩ := Prod.mk.inj hj
      exact Request.stage_undecided hstage.symm
  · exact hinv.held j req t key (hheld j req t key hj hholds) hholds
  · exact hinv.row j req k row (hheld j req _ _ hj rfl)
  · exact hinv.unique j j' req req' t t' key (hheld j req t key hj hholds)
      (hheld j' req' t' key hj' hholds') hholds hholds'

/-- The reader of a row gets the row of its id. -/
theorem handle_getApproval {row : Approval (Contract k)}
    (h : handle lib s (.getApproval k approvalId) env = (.ok row, s')) :
    findApproval (s k) approvalId = some row := by
  obtain ⟨hanswer, -⟩ := Prod.mk.inj h
  split at hanswer
  · cases hanswer
  · unfold ApprovalStore.get at hanswer
    split at hanswer
    · cases hanswer
    · rw [← Except.ok.inj hanswer]
      assumption

/-- What one call does to the stage of its method. -/
structure StageMove (P : Platform) (lib : Library) (executor : ShellExecutor) (s : Tables)
    (c : Call) (answer : c.Answer) (t t' : Stage) : Prop where
  undecided : ∀ k approvalId, t' = .undecided k approvalId → t = t'
  holds : ∀ key, t'.holds = some key → t.holds = some key ∨ t = .undecided key.1 key.2 ∧
    grantedBy c answer = some key
  row : ∀ k row, t' = .permit k row → t = t' ∨ findApproval (s k) row.approvalId = some row
  executes : c.executes = true → t'.holds = none ∧ ∃ k row, t = .permit k row ∧
    CarriesOut P lib executor k row.contract c

/-- A stage that a quiet or failed call has left as it was. -/
theorem stageMove_same (hc : c.executes = false) : StageMove P lib executor s c answer t t where
  undecided _ _ _ := rfl
  holds _ h := .inl h
  row _ _ _ := .inl rfl
  executes h := by
    rw [hc] at h
    cases h

/-- A call after which the method holds no permit. -/
theorem stageMove_spent
    (h : c.executes = true → ∃ k row, t = .permit k row ∧
      CarriesOut P lib executor k row.contract c) :
    StageMove P lib executor s c answer t .spent where
  undecided _ _ h := by cases h
  holds _ h := by cases h
  row _ _ h := by cases h
  executes hc := ⟨rfl, h hc⟩

theorem stageMove (hallowed : (permit P lib executor).allowed t c)
    (h : handle lib s c env = (answer, s')) :
    StageMove P lib executor s c answer t (t.next c answer) := by
  cases t with
  | passive => exact stageMove_same hallowed.1
  | spent => exact stageMove_same hallowed.1
  | decided k approvalId =>
    obtain rfl := hallowed
    cases answer with
    | error e => exact stageMove_same rfl
    | ok row =>
      have hfind := handle_getApproval h
      have hid := approvalId_of_find hfind
      refine ⟨fun _ _ h => (by cases h), fun key hkey => .inl ?_, ?_, fun h => (by cases h)⟩
      · rw [← hkey]
        exact congrArg (fun id => some (k, id)) hid.symm
      · rintro _ _ ⟨⟩
        exact .inr (hid ▸ hfind)
  | permit k row =>
    by_cases hc : c.executes = true
    · have hnext : Stage.next (.permit k row) c answer = .spent := by simp [Stage.next, hc]
      rw [hnext]
      exact stageMove_spent fun _ => ⟨k, row, rfl, hallowed.2 hc⟩
    · have hnext : Stage.next (.permit k row) c answer = .permit k row := by simp [Stage.next, hc]
      rw [hnext]
      exact stageMove_same (by simpa using hc)
  | undecided k approvalId =>
    cases c with
    | approve k' id now decidedAt operator =>
      obtain ⟨rfl, rfl⟩ := Prod.mk.inj (hallowed.2 (k', id) rfl)
      have hspent : ∀ h : Call.executes (.approve k' id now decidedAt operator) = true,
          ∃ k row, Stage.undecided k' id = .permit k row ∧ CarriesOut P lib executor k row.contract
            (.approve k' id now decidedAt operator) := by
        intro h
        cases h
      cases answer with
      | error e => exact stageMove_spent hspent
      | ok expired =>
        cases expired with
        | true => exact stageMove_spent hspent
        | false =>
          refine ⟨fun _ _ h => (by cases h), ?_, fun _ _ h => (by cases h), fun h => (by cases h)⟩
          rintro _ ⟨⟩
          exact .inr ⟨rfl, rfl⟩
    | _ => exact stageMove_same hallowed.1

/-- What was executed had been approved. -/
theorem PermitInv.granted_of_executes (hinv : PermitInv P lib executor s stage trace) {y : Entry}
    (hy : y ∈ trace) (hexecutes : y.call.executes = true) (hkey : y.request.approval = some key) :
    ∃ z ∈ trace, Entry.granted z = some key := by
  obtain ⟨pre, post, rfl⟩ := List.append_of_mem hy
  have hpre : pre ++ [y] <+: pre ++ y :: post := ⟨post, by simp⟩
  obtain ⟨k, approvalId, hsound⟩ := hinv.executed pre y hpre hexecutes
  obtain rfl := Option.some.inj (hkey.symm.trans hsound.approval)
  obtain ⟨z, hz, hgranted, -⟩ := hsound.approved
  exact ⟨z, List.mem_append_left _ hz, hgranted⟩

/-- **One call keeps the permits.** -/
theorem PermitInv.call {i : Nat} (hinv : PermitInv P lib executor s stage trace)
    (htables : TablesInv lib s trace) (hi : stage i = some (request, t))
    (hallowed : (permit P lib executor).allowed t c) (h : handle lib s c env = (answer, s')) :
    PermitInv P lib executor s' (Function.update stage i (some (request, t.next c answer)))
      (trace ++ [⟨request, s, c, answer⟩]) := by
  have hhandled := handle_cases htables.nodup h
  have hmove := stageMove hallowed h
  -- a slot is another one, or the one that the call was made from
  have hcases : ∀ j p, Function.update stage i (some (request, t.next c answer)) j = some p →
      (j ≠ i ∧ stage j = some p) ∨ j = i ∧ p = (request, t.next c answer) := by
    intro j p hj
    by_cases hji : j = i
    · subst hji
      rw [Function.update_self] at hj
      exact .inr ⟨rfl, (Option.some.inj hj).symm⟩
    · rw [Function.update_of_ne hji] at hj
      exact .inl ⟨hji, hj⟩
  -- nobody holds a permit of an approval that is approved now
  have hfresh : ∀ key, grantedBy c answer = some key → ∀ j req u, stage j = some (req, u) →
      u.holds ≠ some key := by
    intro key hkey j req u hj hholds
    obtain ⟨-, ⟨y, hy, hgranted⟩, -⟩ := hinv.held j req u key hj hholds
    exact htables.undecided hhandled (decided_of_granted hkey) y hy (decided_of_granted hgranted)
  refine ⟨fun j req k id hj => ?_, fun j req u key hj hholds => ?_, fun j req k row hj => ?_,
    fun j j' req req' u u' key hj hj' hholds hholds' => ?_, fun pre x hpre hexecutes => ?_⟩
  · rcases hcases j _ hj with ⟨-, hj⟩ | ⟨rfl, hp⟩
    · exact hinv.undecided j req k id hj
    · obtain ⟨rfl, hstage⟩ := Prod.mk.inj hp
      have ht := hmove.undecided k id hstage.symm
      exact hinv.undecided j req k id (by rw [hi, ht, ← hstage])
  · rcases hcases j _ hj with ⟨hji, hold⟩ | ⟨rfl, hp⟩
    · obtain ⟨hreq, ⟨y, hy, hgranted⟩, hunused⟩ := hinv.held j req u key hold hholds
      refine ⟨hreq, ⟨y, List.mem_append_left _ hy, hgranted⟩, fun z hz hexecutes happroval => ?_⟩
      rcases List.mem_append.mp hz with hz | hz
      · exact hunused z hz hexecutes happroval
      -- the call that executes holds its own permit
      obtain rfl := List.mem_singleton.mp hz
      obtain ⟨-, k, row, rfl, -⟩ := hmove.executes hexecutes
      obtain ⟨happroval', -⟩ := hinv.held i request _ _ hi rfl
      obtain rfl := Option.some.inj (happroval.symm.trans happroval')
      exact hji (hinv.unique j i req request u _ _ hold hi hholds rfl)
    · obtain ⟨rfl, rfl⟩ := Prod.mk.inj hp
      have hexecutes : c.executes ≠ true := by
        intro hc
        rw [(hmove.executes hc).1] at hholds
        cases hholds
      have hlast : ∀ z ∈ trace ++ [(⟨req, s, c, answer⟩ : Entry)], z.call.executes = true →
          z ∈ trace := by
        intro z hz hz'
        rcases List.mem_append.mp hz with hz | hz
        · exact hz
        · obtain rfl := List.mem_singleton.mp hz
          exact absurd hz' hexecutes
      rcases hmove.holds key hholds with hkept | ⟨rfl, hgranted⟩
      · obtain ⟨hreq, ⟨y, hy, hgranted⟩, hunused⟩ := hinv.held j req t key hi hkept
        exact ⟨hreq, ⟨y, List.mem_append_left _ hy, hgranted⟩, fun z hz hz' =>
          hunused z (hlast z hz hz') hz'⟩
      · refine ⟨hinv.undecided j req key.1 key.2 hi,
          ⟨_, List.mem_append_right _ (List.mem_singleton_self _), hgranted⟩,
          fun z hz hz' happroval => ?_⟩
        obtain ⟨y, hy, hy'⟩ := hinv.granted_of_executes (hlast z hz hz') hz' happroval
        exact htables.undecided hhandled (decided_of_granted hgranted) y hy (decided_of_granted hy')
  · have hlater : ∀ row', findApproval (s k) row.approvalId = some row' → row'.Same row →
        ∃ row', findApproval (s' k) row.approvalId = some row' ∧ row'.Same row := by
      intro row' hrow' hsame
      obtain ⟨row'', hrow'', hsame', -⟩ := hhandled.later k _ row' hrow'
      exact ⟨row'', hrow'', hsame'.trans hsame⟩
    rcases hcases j _ hj with ⟨-, hj⟩ | ⟨rfl, hp⟩
    · obtain ⟨row', hrow', hsame⟩ := hinv.row j req k row hj
      exact hlater row' hrow' hsame
    · obtain ⟨rfl, hstage⟩ := Prod.mk.inj hp
      rcases hmove.row k row hstage.symm with ht | hfind
      · obtain ⟨row', hrow', hsame⟩ := hinv.row j req k row (by rw [hi, ht, ← hstage])
        exact hlater row' hrow' hsame
      · exact hlater row hfind (.refl row)
  · -- a permit that is new belongs to an approval of which nobody else has one
    have hnew : ∀ key, (t.next c answer).holds = some key → ∀ j req u, j ≠ i →
      stage j = some (req, u) → u.holds ≠ some key := by
      intro key hkey j req u hji hj hu
      rcases hmove.holds key hkey with hkept | ⟨-, hgranted⟩
      · exact hji (hinv.unique j i req request u t key hj hi hu hkept)
      · exact hfresh key hgranted j req u hj hu
    rcases hcases j _ hj with ⟨hji, hold⟩ | ⟨rfl, hp⟩
    · rcases hcases j' _ hj' with ⟨-, hold'⟩ | ⟨rfl, hp'⟩
      · exact hinv.unique j j' req req' u u' key hold hold' hholds hholds'
      · obtain ⟨rfl, rfl⟩ := Prod.mk.inj hp'
        exact absurd hholds (hnew key hholds' j req u hji hold)
    · rcases hcases j' _ hj' with ⟨hji', hold'⟩ | ⟨rfl, -⟩
      · obtain ⟨rfl, rfl⟩ := Prod.mk.inj hp
        exact absurd hholds' (hnew key hholds j' req' u' hji' hold')
      · rfl
  · rcases List.prefix_concat_iff.mp hpre with heq | hpre
    · obtain ⟨rfl, hx⟩ := List.append_inj' heq rfl
      obtain rfl := List.singleton_inj.mp hx
      obtain ⟨-, k, row, rfl, hcarries⟩ := hmove.executes hexecutes
      obtain ⟨happroval, ⟨y, hy, hgranted⟩, hunused⟩ := hinv.held i request _ _ hi rfl
      obtain ⟨row', hrow', hsame⟩ := hinv.row i request k row hi
      obtain ⟨z, hz, row₀, hinserted, hsame₀⟩ := htables.recorded k _ row' hrow'
      have hcontract : row.contract = row₀.contract := hsame.contract.symm.trans hsame₀.contract
      refine ⟨k, row.approvalId, happroval, hunused,
        ⟨y, hy, hgranted, (htables.granted y hy _ _ hgranted).1⟩,
        z, hz, row₀, hinserted, ?_, hcontract ▸ hcarries⟩
      exact hsame₀.approvalId.symm.trans hsame.approvalId
    · exact hinv.executed pre x hpre hexecutes

/-! ## Runs -/

theorem tablesInv_init : TablesInv lib (fun _ => []) [] where
  nodup _ := List.nodup_nil
  decided x hx := by cases hx
  granted x hx := by cases hx
  once pre x key hpre := by simp at hpre
  recorded k approvalId row hrow := by cases hrow

theorem permitInv_init : PermitInv P lib executor (fun _ => []) (fun _ => none) [] where
  undecided i request k approvalId hi := by cases hi
  held i request t key hi := by cases hi
  row i request k row hi := by cases hi
  unique i j request request' t t' key hi := by cases hi
  executed pre x hpre := by simp at hpre

/-- **Each approval is carried out once**, after it was approved in time, and as it was recorded:
whatever calls run at the same time, whatever they are answered, and wherever they stop. -/
theorem single_execution {system : System} {es : List (PoolEvent Nat Request Chance)}
    (h : run (vestaStep P lib executor) .init es = some system) :
    SingleExecution P lib executor system := by
  have hinv : ∃ stage, (∀ i, Follows (permit P lib executor) (system.active i) (stage i)) ∧
      TablesInv lib system.shared system.trace ∧
      PermitInv P lib executor system.shared stage system.trace := by
    refine pool_invariant (A := permit P lib executor)
      (R := fun s stage trace => TablesInv lib s trace ∧ PermitInv P lib executor s stage trace)
      follows_program ?_ ?_ ?_ ?_ h
    · intro s stage trace i request hR _
      exact ⟨hR.1, hR.2.start i request⟩
    · intro s stage trace i hR
      exact ⟨hR.1, hR.2.stop i⟩
    · intro s stage trace i request t c env answer s' hR hi hallowed hhandle
      have htables := hR.1.step (handle_cases hR.1.nodup hhandle) request
      have hpermits := hR.2.call hR.1 hi hallowed hhandle
      exact ⟨htables, hpermits⟩
    · exact ⟨tablesInv_init, permitInv_init⟩
  obtain ⟨stage, -, htables, hpermits⟩ := hinv
  exact ⟨fun pre x key hpre => htables.once pre x key hpre,
    fun x hx k approvalId hgranted => (htables.granted x hx k approvalId hgranted).2,
    hpermits.executed⟩

end

/-! ### One write -/

/-- Every deadline is at the instant 10. -/
def clockLibrary : Library := ⟨fun _ => some ⟨true, 10⟩, fun _ => [], fun _ => []⟩

/-- Nothing fails, and it is the instant 0. -/
def calmAnswer : (c : Call) → c.Answer
  | .verifyTrustworthy => .ok none
  | .utcNow => .ok 0
  | .nowText => .ok []
  | .uuid => .ok []
  | .insert .. => .ok ()
  | .getApproval .. => .error .typeError
  | .approve .. => .ok false
  | .reject .. => .ok ()
  | .void .. => .ok ()
  | .getTask _ => .ok ⟨.waitingApproval, [], none⟩
  | .transitionTask .. => .ok ()
  | .updateMetadata .. => .ok ()
  | .audit .. => .ok 1
  | .isArmed => .ok false
  | .readBytes _ => .ok []
  | .recordJson .. => .ok []
  | .write path content _ => .ok ⟨path, false, none, [], content.length, none⟩
  | .rollback receipt => .ok ⟨true, receipt.path, none⟩
  | .bindExpired => .ok false
  | .popen executable command => .ok ⟨executable, command, some 0, [], [], false, false, 0⟩

/-- The contract of an empty file. -/
def emptyFile : WriteContract := ⟨lit "a", [], Platform.tagged.hexdigest [], none⟩

/-- The contract is submitted, and two processes approve it at the same time. -/
def writeRun : List (PoolEvent Nat Request Chance) :=
  let answers (i n : Nat) : List (PoolEvent Nat Request Chance) :=
    List.replicate n (.answer i ⟨none, calmAnswer⟩)
  let request : Request := .approveAndExecute .write (lit "ack_") (lit "owner") .none
  .start 0 (.submitWrite [] [] emptyFile [] []) :: answers 0 4 ++
    [.start 1 request, .start 2 request] ++ answers 1 4 ++ answers 2 4 ++ answers 1 22

theorem single_execution_write :
    ∃ system, run (vestaStep Platform.tagged clockLibrary ⟨[]⟩) .init writeRun = some system ∧
      (system.trace.filter fun x => x.call.executes).length = 1 ∧
      SingleExecution Platform.tagged clockLibrary ⟨[]⟩ system := by
  have hrun : (run (vestaStep Platform.tagged clockLibrary ⟨[]⟩) .init writeRun).map
      (fun system => (system.trace.filter fun x => x.call.executes).length) = some 1 := by
    decide +kernel
  obtain ⟨system, hsystem, hlength⟩ := Option.map_eq_some_iff.mp hrun
  exact ⟨system, hsystem, hlength, single_execution hsystem⟩

end Vesta
