import Msb.Infra.Keyed
import Msb.Infra.Number
import Msb.Infra.Text

/-!
# The wake inbox

`wake/store.py` and `_process_inbox` of `wake/runner.py`: messages are left in an inbox, and a cycle
answers the pending ones, one turn of the model each. A cycle reads the pending rows once and writes
each outcome later; it goes on one call at a time, so that several cycles can be at it.

* `WakeStore.post`, `WakeStore.pending`, `WakeStore.respond`, `WakeStore.markFailed`
* `Cycle.step`, `System.step`
-/

namespace Wake

open Py

/-! ## The store -/

inductive InboxStatus where
  | pending
  | done
  | failed
  deriving DecidableEq

/-- A row of `wake_inbox`. -/
structure InboxRow where
  id : Str
  ts : Str
  sender : Str
  text : Str
  status : InboxStatus
  responseId : Option Str
  error : Option Str
  respondedAt : Option Str
  deriving DecidableEq

/-- A row of `wake_outbox`. -/
structure OutboxRow where
  id : Str
  ts : Str
  inReplyTo : Option Str
  text : Str
  source : Str
  deriving DecidableEq

/-- The two tables. The last field is what has happened so far, for the statements: the messages for
which a turn was begun. -/
structure WakeStore where
  inbox : List InboxRow
  outbox : List OutboxRow
  turns : List Str

/-- What a call of the store takes from outside: the id that is drawn, two readings of the clock,
and the error of a database that fails. -/
structure CallEnv where
  newId : Str
  now : Str
  later : Str
  fault : Option PyError

def integrityError : PyError := .raised (lit "IntegrityError") (lit "UNIQUE constraint failed")

def unknownMessage (msgId : Str) : PyError :=
  .raised (lit "KeyError") (lit "unknown wake message: " ++ msgId)

namespace WakeStore

variable (s : WakeStore)

def empty : WakeStore := ⟨[], [], []⟩

/-- `post` -/
def post (env : CallEnv) (text sender : Str) : Except PyError InboxRow × WakeStore :=
  let text := strip text
  let given := if sender = [] then lit "operator" else sender
  let named := (strip given).take 80
  let row : InboxRow :=
    ⟨lit "wake-" ++ env.newId, env.now, if named = [] then lit "operator" else named,
      text.take 4000, .pending,
    none, none, none⟩
  if text = [] then (.error (.valueError (lit "wake message text is required")), s)
  else
    match env.fault with
    | some e => (.error e, s)
    | none =>
      if ∃ r ∈ s.inbox, r.id = row.id then (.error integrityError, s)
      else (.ok row, { s with inbox := s.inbox ++ [row] })

/-- `pending`: the oldest ones first -/
def pending (limit : Int) : List InboxRow :=
  ((s.inbox.filter fun r => r.status = .pending).insertionSort fun a b => a.ts ≤ b.ts).take
    limit.toNat

/-- `pending_count` -/
def pendingCount : Nat := s.inbox.countP fun r => r.status = .pending

/-- `UPDATE wake_inbox SET ... WHERE id=?` -/
def update (msgId : Str) (f : InboxRow → InboxRow) : List InboxRow :=
  s.inbox.map fun r => if r.id = msgId then f r else r

/-- `respond`: one transaction -/
def respond (env : CallEnv) (msgId text source : Str) : Except PyError OutboxRow × WakeStore :=
  let row : OutboxRow := ⟨lit "wake-" ++ env.newId, env.now, some msgId, text.take 8000, source⟩
  match env.fault with
  | some e => (.error e, s)
  | none =>
    if ∃ r ∈ s.inbox, r.id = msgId then
      if ∃ o ∈ s.outbox, o.id = row.id then (.error integrityError, s)
      else
        (.ok row, { s with
          outbox := s.outbox ++ [row]
          inbox := s.update msgId fun r =>
            { r with status := .done, responseId := some row.id, respondedAt := some env.later } })
    else (.error (unknownMessage msgId), s)

/-- `mark_failed` -/
def markFailed (env : CallEnv) (msgId error : Str) : Except PyError Unit × WakeStore :=
  match env.fault with
  | some e => (.error e, s)
  | none =>
    (.ok (), { s with
      inbox := s.update msgId fun r =>
        { r with status := .failed, error := some (error.take 500), respondedAt := some env.now } })

/-- `notify` -/
def notify (env : CallEnv) (text source : Str) : Except PyError OutboxRow × WakeStore :=
  let row : OutboxRow := ⟨lit "wake-" ++ env.newId, env.now, none, (strip text).take 8000, source⟩
  if strip text = [] then (.error (.valueError (lit "notice text is required")), s)
  else
    match env.fault with
    | some e => (.error e, s)
    | none =>
      if ∃ o ∈ s.outbox, o.id = row.id then (.error integrityError, s)
      else (.ok row, { s with outbox := s.outbox ++ [row] })

end WakeStore

/-! ## A cycle -/

/-- What `_process_inbox` returns. -/
structure InboxResult where
  summary : Str
  processed : List Str
  failed : List (Str × Str)
  pendingRemaining : Nat

/-- Where a cycle is in the loop over its messages. -/
inductive Phase where
  | reading
  | choosing (rest : List InboxRow)
  | turning (msg : InboxRow) (rest : List InboxRow)
  | hooking (msg : InboxRow) (reply : Str) (rest : List InboxRow)
  | responding (msg : InboxRow) (text : Str) (rest : List InboxRow)
  | failing (msg : InboxRow) (error : Str) (rest : List InboxRow)
  | counting
  | returned (result : InboxResult)
  | raised (hand : Option Str) (error : PyError)
  | stopped (hand : Option Str)

structure Cycle where
  limit : Int
  phase : Phase
  processed : List Str
  failed : List (Str × Str)

/-- The message that a cycle has taken up and not written the outcome of, also where it has ended
so. -/
def Phase.hand : Phase → Option Str
  | .turning msg _ | .hooking msg _ _ | .responding msg _ _ | .failing msg _ _ => some msg.id
  | .raised hand _ | .stopped hand => hand
  | _ => none

/-- The class and the text of an exception. -/
structure ErrorTexts where
  className : PyError → Str
  message : PyError → Str

/-- What one step of a cycle takes from outside: besides what the store takes, the reply of the
model and the note of the automation hook. -/
structure StepEnv extends CallEnv where
  turn : Except PyError Str
  hook : Except PyError Str

variable (T : ErrorTexts)

/-- `f"{type(exc).__name__}: {exc}"` -/
def ErrorTexts.text (e : PyError) : Str := T.className e ++ lit ": " ++ T.message e

def number (n : Nat) : Str := (intLit n).text

/-- `_process_inbox`, one call further. -/
def Cycle.step (c : Cycle) (env : StepEnv) (s : WakeStore) : Option (Cycle × WakeStore) :=
  match c.phase with
  | .reading =>
    match env.fault with
    | some e => some ({ c with phase := .raised none e }, s)
    | none =>
      if s.pending c.limit = [] then some
        ({ c with phase := .returned ⟨lit "inbox empty", [], [], 0⟩ }, s)
      else some ({ c with phase := .choosing (s.pending c.limit) }, s)
  | .choosing [] => some ({ c with phase := .counting }, s)
  | .choosing (msg :: rest) =>
    some ({ c with phase := .turning msg rest }, { s with turns := s.turns ++ [msg.id] })
  | .turning msg rest =>
    match env.turn with
    | .ok reply => some ({ c with phase := .hooking msg reply rest }, s)
    | .error e => some ({ c with phase := .failing msg (T.text e) rest }, s)
  | .hooking msg reply rest =>
    match env.hook with
    | .ok note => some ({ c with phase := .responding msg (reply ++ note) rest }, s)
    | .error e => some ({ c with phase := .raised (some msg.id) e }, s)
  | .responding msg text rest =>
    match s.respond env.toCallEnv msg.id text (lit "wake") with
    | (.ok _, t) =>
      some ({ c with phase := .choosing rest, processed := c.processed ++ [msg.id] }, t)
    | (.error e, t) => some ({ c with phase := .raised (some msg.id) e }, t)
  | .failing msg error rest =>
    match s.markFailed env.toCallEnv msg.id error with
    | (.ok _, t) =>
      some ({ c with phase := .choosing rest, failed := c.failed ++ [(msg.id, error)] }, t)
    | (.error e, t) => some ({ c with phase := .raised (some msg.id) e }, t)
  | .counting =>
    match env.fault with
    | some e => some ({ c with phase := .raised none e }, s)
    | none =>
      let summary := number c.processed.length ++ lit " processed, " ++ number c.failed.length ++
        lit " failed, " ++ number s.pendingCount ++ lit " remaining"
      some ({ c with phase := .returned ⟨summary, c.processed, c.failed, s.pendingCount⟩ }, s)
  | .returned _ | .raised _ _ | .stopped _ => none

/-! ## The system -/

/-- The store, and the cycles that are or have been at it. -/
structure System (ι : Type) where
  store : WakeStore
  cycles : ι → Option Cycle

def System.init {ι : Type} : System ι := ⟨.empty, fun _ => none⟩

inductive Event (ι : Type) where
  | post (env : CallEnv) (text sender : Str)
  | notify (env : CallEnv) (text source : Str)
  | respond (env : CallEnv) (msgId text source : Str)
  | markFailed (env : CallEnv) (msgId error : Str)
  | start (i : ι) (limit : Int)
  | step (i : ι) (env : StepEnv)
  | stop (i : ι)

def System.step {ι : Type} [DecidableEq ι] (s : System ι) : Event ι → Option (System ι)
  | .post env text sender => some { s with store := (s.store.post env text sender).2 }
  | .notify env text source => some { s with store := (s.store.notify env text source).2 }
  | .respond env msgId text source =>
    some { s with store := (s.store.respond env msgId text source).2 }
  | .markFailed env msgId error => some { s with store := (s.store.markFailed env msgId error).2 }
  | .start i limit =>
    match s.cycles i with
    | some _ => none
    | none => some { s with cycles := Function.update s.cycles i (some ⟨limit, .reading, [], []⟩) }
  | .step i env =>
    (s.cycles i).bind fun c => (c.step T env s.store).map fun p =>
      ⟨p.2, Function.update s.cycles i (some p.1)⟩
  | .stop i =>
    (s.cycles i).map fun c => { s with
      cycles := Function.update s.cycles i (some { c with phase := .stopped c.phase.hand }) }

end Wake
