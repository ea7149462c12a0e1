import Msb.Infra.Text

/-!
# Schema migrations

`db/migrations.py`: a database has a table with the version of its schema, and a process that starts
brings the schema up to date, one migration after the other. A migration is two transactions, the
script and then the version. A process goes on one transaction at a time, so that several of them
can be at it.

* `Starter.step` — `ensure_schema`, one transaction further
* `System.step` — processes that start, go on and crash
-/

namespace Db

open Py

structure Migration where
  version : Int
  sql : Str
  deriving DecidableEq

/-! ## The database -/

/-- The version table, where there is one, with its row; and the rest of the database. -/
structure Database (δ : Type) where
  version : Option (Option Int)
  contents : δ

/-- An error of SQLite. -/
structure Fault where
  operational : Bool
  error : PyError

def noSuchTable : PyError := .raised (lit "OperationalError") (lit "no such table: _schema_version")

def tooLarge : PyError :=
  .raised (lit "OverflowError") (lit "Python int too large to convert to SQLite INTEGER")

/-- What fits into a column. -/
def Fits (version : Int) : Prop := -2 ^ 63 ≤ version ∧ version < 2 ^ 63

instance (version : Int) : Decidable (Fits version) := by unfold Fits; infer_instance

namespace Database

variable {δ : Type} (db : Database δ)

/-- The version in the table, 0 without one. -/
def recorded : Int := (db.version.getD none).getD 0

/-- `_get_version`: an operational error is taken for a missing table. -/
def getVersion : Option Fault → Except PyError Int
  | some fault => if fault.operational then .ok 0 else .error fault.error
  | none => .ok db.recorded

/-- `_set_version` -/
def setVersion (version : Int) : Option Fault → Except PyError (Database δ)
  | some fault => .error fault.error
  | none =>
    if db.version = none then .error noSuchTable
    else if Fits version then .ok { db with version := some (some version) }
    else .error tooLarge

/-- `_init_version_table` -/
def initVersionTable : Option Fault → Except PyError (Database δ)
  | some fault => .error fault.error
  | none => .ok { db with version := some (db.version.getD none) }

/-- `executescript`: all of it or nothing. -/
def executeScript (exec : Str → δ → Except PyError δ) (sql : Str) : Option Fault →
    Except PyError (Database δ)
  | some fault => .error fault.error
  | none => (exec sql db.contents).map fun contents => { db with contents := contents }

end Database

/-! ## A process that starts -/

/-- Where `ensure_schema` is. -/
inductive Phase where
  | opening
  | creating
  | reading
  | running (pending : List Migration)
  | recording (migration : Migration) (rest : List Migration)
  | rereading
  | folding (final : Int)
  | returned (version : Int)
  | raised (error : PyError)
  | crashed
  deriving DecidableEq

def Phase.Ended : Phase → Prop
  | .returned _ | .raised _ | .crashed => True
  | _ => False

structure Starter where
  migrations : List Migration
  phase : Phase

/-- The migrations above a version, in order. -/
def pendingAbove (current : Int) (migrations : List Migration) : List Migration :=
  (migrations.filter fun m => m.version > current).insertionSort fun a b => a.version ≤ b.version

variable {δ : Type} (exec : Str → δ → Except PyError δ)

/-- `ensure_schema`, one transaction further: the process, the database, and the migration whose
script is committed. -/
def Starter.step (p : Starter) (fault : Option Fault) (db : Database δ) :
    Option (Phase × Database δ × List Migration) :=
  match p.phase with
  | .opening =>
    match fault with
    | some f => some (.raised f.error, db, [])
    | none => some (.creating, db, [])
  | .creating =>
    match db.initVersionTable fault with
    | .error e => some (.raised e, db, [])
    | .ok db' => some (.reading, db', [])
  | .reading =>
    match db.getVersion fault with
    | .error e => some (.raised e, db, [])
    | .ok current =>
      if pendingAbove current p.migrations = [] then some (.returned current, db, [])
      else some (.running (pendingAbove current p.migrations), db, [])
  | .running [] => some (.rereading, db, [])
  | .running (migration :: rest) =>
    match db.executeScript exec migration.sql fault with
    | .error e => some (.raised e, db, [])
    | .ok db' => some (.recording migration rest, db', [migration])
  | .recording migration rest =>
    match db.setVersion migration.version fault with
    | .error e => some (.raised e, db, [])
    | .ok db' => some (.running rest, db', [])
  | .rereading =>
    match db.getVersion fault with
    | .error e => some (.raised e, db, [])
    | .ok final => some (.folding final, db, [])
  | .folding final =>
    match fault with
    | some f =>
      if f.operational then some (.returned final, db, []) else some (.raised f.error, db, [])
    | none => some (.returned final, db, [])
  | .returned _ | .raised _ | .crashed => none

/-! ## The system -/

/-- The database and the processes; for the statements, the list of migrations that the last process
has come with, and the migrations whose scripts are committed. -/
structure System (δ ι : Type) where
  db : Database δ
  starters : ι → Option Starter
  seen : List Migration
  committed : List Migration

/-- A database that no process has come to. -/
def System.init {δ ι : Type} (contents : δ) : System δ ι :=
  ⟨⟨none, contents⟩, fun _ => none, [], []⟩

inductive Event (ι : Type) where
  | start (i : ι) (migrations : List Migration)
  | step (i : ι) (fault : Option Fault)
  | crash (i : ι)

def System.step {ι : Type} [DecidableEq ι] (s : System δ ι) : Event ι → Option (System δ ι)
  | .start i migrations =>
    match s.starters i with
    | some _ => none
    | none =>
      some { s with
        starters := Function.update s.starters i (some ⟨migrations, .opening⟩), seen := migrations }
  | .step i fault =>
    (s.starters i).bind fun p => (p.step exec fault s.db).map fun r =>
      { s with db := r.2.1, starters := Function.update s.starters i (some { p with phase := r.1 }),
               committed := s.committed ++ r.2.2 }
  | .crash i =>
    (s.starters i).map fun p =>
      { s with starters := Function.update s.starters i (some { p with phase := .crashed }) }

end Db
