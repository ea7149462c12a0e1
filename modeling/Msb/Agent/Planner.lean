import Msb.Agent.TaskGraph
import Msb.Ledger.Notary

/-!
# The planner

`agent/planner.py`: the tasks that the model proposes are taken over where they are valid and form a
graph without cycles. Anything else gives the graph of the template. A tool name that the planner
does not know is passed through.

* `plan` — the graph that is emitted
-/

namespace Agent

open Py

/-! ## Vocabulary -/

/-- `_KNOWN_VERIFY` -/
def knownVerify : List Str :=
  [lit "search_returned_hits", lit "synthesis_nonempty", lit "file_written",
    lit "file_written_with_heading", lit "none"]

/-- `_KNOWN_CAPABILITIES` -/
def knownCapabilities : List Str := [lit "read_vault", lit "llm_synthesis", lit "write_file"]

/-- `CAPABILITY_TOOL` -/
def capabilityTools : List (Str × Str) :=
  [(lit "read_vault", lit "search_query"), (lit "llm_synthesis", lit "chat"),
    (lit "write_file", lit "vault_write")]

/-- What the planner asks the language: `c.isalnum()`, and `str(v)`. -/
structure PlanLib where
  isAlnum : CodePoint → Bool
  str : PyVal → Str

/-! ## `_DESTRUCTIVE_GOAL_RE` -/

section

variable (isAlnum : CodePoint → Bool)

/-- `re.IGNORECASE` for a small letter. -/
def sameLetter (letter c : CodePoint) : Bool :=
  c = letter || c.val + 32 = letter.val ||
    (letter.val = 0x69 && (c.val = 0x130 || c.val = 0x131)) || (letter.val = 0x73 && c.val = 0x17f)

/-- The word stands at a position. -/
def wordAt (s : Str) (i : Nat) (word : Str) : Bool :=
  i + word.length ≤ s.length && (word.zip (s.drop i)).all fun p => sameLetter p.1 p.2

/-- `\b` -/
def boundary (s : Str) (i : Nat) : Bool :=
  let isWord (c : Option CodePoint) : Bool := c.any fun c => isAlnum c || c = 0x5f
  isWord (if i = 0 then none else s[i - 1]?) != isWord s[i]?

/-- One of the first words, at most 40 characters of one line, one of the second words. -/
def wordsNear (s : Str) (first second : List Str) : Bool :=
  let whole (i : Nat) (word : Str) : Bool :=
    wordAt s i word && boundary isAlnum s i && boundary isAlnum s (i + word.length)
  (List.range s.length).any fun i => first.any fun v => whole i v &&
    (List.range 41).any fun gap => second.any fun w =>
      !(((s.drop (i + v.length)).take gap).contains 10) && whole (i + v.length + gap) w

def destructiveWords : List Str :=
  [lit "delete", lit "erase", lit "wipe", lit "destroy", lit "purge", lit "remove"]

def totalWords : List Str := [lit "all", lit "everything", lit "entire"]

/-- `_DESTRUCTIVE_GOAL_RE.search(goal)` -/
def destructiveGoal (goal : Str) : Bool :=
  wordsNear isAlnum goal destructiveWords totalWords || wordsNear isAlnum goal totalWords
    destructiveWords

end

/-! ## `_parse_tasks` -/

/-- `_clean_str_list` -/
def cleanStrList : Option PyVal → List Str
  | some (.list xs) => xs.filterMap fun x =>
    match x with
    | .str s => if strip s = [] then none else some (strip s)
    | _ => none
  | _ => []

/-- `v in _KNOWN_VERIFY` raises for a value that has no hash. -/
def verifyMethod : Option PyVal → Except PyError Str
  | some (.str s) => .ok (if s ∈ knownVerify then s else lit "none")
  | some (.list _) | some (.dict _) => .error .typeError
  | _ => .ok (lit "none")

/-- `float(v)` raises for an integer that rounds past the greatest float; the parser catches other
errors. -/
def floatOverflow : Option PyVal → Prop
  | some (.int i) => (2 : Int) ^ 1024 - 2 ^ 970 ≤ |i|
  | _ => False

instance : DecidablePred floatOverflow := fun v => by
  unfold floatOverflow
  split <;> infer_instance

/-- The string under a key, where it is one and is not blank. -/
def textOf (v : Option PyVal) : Option Str :=
  match v with
  | some (.str s) => if strip s = [] then none else some s
  | _ => none

/-- `str(v or default)` -/
def textOr (lib : PlanLib) (v : Option PyVal) (default : Str) : Str :=
  match v with
  | some v => if Ledger.truthy v then lib.str v else default
  | none => default

/-- `parent_id`, where it is a string. -/
def parentOf (v : Option PyVal) : Option Str :=
  match v with
  | some (.str s) => some s
  | _ => none

/-- One entry of the payload. `none` is an entry that is dropped. -/
def parseTask (lib : PlanLib) (item : PyVal) : Except PyError (Option Task) :=
  match item with
  | .dict items =>
    match textOf (Ledger.getItem items (lit "task_id")),
      textOf (Ledger.getItem items (lit "goal")) with
    | some taskId, some goal => do
      let caps := (cleanStrList (Ledger.getItem items (lit "capabilities"))).filter
        (· ∈ knownCapabilities)
      let named := cleanStrList (Ledger.getItem items (lit "tools"))
      let tools := ((if named = [] then caps else named).map fun t =>
        (lookupStr capabilityTools t).getD t).eraseDups
      let declared ← verifyMethod (Ledger.getItem items (lit "verification_method"))
      let verify := if declared = lit "synthesis_nonempty" ∧ lit "chat" ∉ tools then
        lit "search_returned_hits" else declared
      if verify = lit "none" && destructiveGoal lib.isAlnum goal then .ok none
      else
        let parentId := parentOf (Ledger.getItem items (lit "parent_id"))
        raiseIf (floatOverflow (Ledger.getItem items (lit "timeout_s")))
          (.raised (lit "OverflowError") (lit "int too large to convert to float"))
        .ok (some
          { taskId := strip taskId
            goal := strip goal
            parentId
            inputs := ((parentId.filter (· ≠ [])).map fun p => ⟨some p, lit "output"⟩).toList
            requiredCapabilities := caps
            tools
            expectedOutput := textOr lib (Ledger.getItem items (lit "expected_output")) []
            verificationMethod := verify
            retryPolicy := textOr lib (Ledger.getItem items (lit "retry_policy")) (lit "retry:2") })
    | _, _ => .ok none
  | _ => .ok none

/-- `_parse_tasks` -/
def parseTasks (lib : PlanLib) (data : List (PyKey × PyVal)) : Except PyError (List Task) :=
  match Ledger.getItem data (lit "tasks") with
  | some (.list raw) => (raw.mapM (parseTask lib)).map fun tasks => tasks.filterMap id
  | _ => .ok []

/-! ## `plan` -/

structure Intent where
  request : Str
  goals : List Str
  permissions : List Str

/-- `_is_acyclic_graph` -/
def isAcyclicGraph (tasks : List Task) : Bool :=
  let ids := tasks.map Task.taskId
  ids.Nodup && (tasks.all fun t => t.parentId.all (ids.contains ·)) &&
    (TaskGraph.mk [] tasks (lit "llm")).isAcyclic

def researchTask (intent : Intent) : Task where
  taskId := lit "research"
  goal := lit "Search the vault for evidence on: " ++
    (if intent.goals = [] then intent.request else (lit "; ").intercalate intent.goals)
  parentId := none
  inputs := []
  requiredCapabilities := [lit "read_vault"]
  tools := [lit "search_query"]
  expectedOutput := lit "a list of vault sources with snippets, 1+ hits"
  verificationMethod := lit "search_returned_hits"
  retryPolicy := lit "retry:2"

def synthesizeTask : Task where
  taskId := lit "synthesize"
  goal := lit "Synthesize the research into a concise client-ready brief"
  parentId := some (lit "research")
  inputs := [⟨some (lit "research"), lit "sources"⟩]
  requiredCapabilities := [lit "llm_synthesis"]
  tools := [lit "chat"]
  expectedOutput := lit "a non-empty brief derived from the sources"
  verificationMethod := lit "synthesis_nonempty"
  retryPolicy := lit "retry:2"

def writeTask : Task where
  taskId := lit "write"
  goal := lit "Write the brief to a file"
  parentId := some (lit "synthesize")
  inputs := [⟨some (lit "synthesize"), lit "brief"⟩]
  requiredCapabilities := [lit "write_file"]
  tools := [lit "vault_write"]
  expectedOutput := lit "a non-empty file containing the brief, starting with a # heading"
  verificationMethod := lit "file_written_with_heading"
  retryPolicy := lit "retry:1"

/-- `template_dag` -/
def templateDag (intent : Intent) : TaskGraph where
  goal := intent.request
  tasks := [researchTask intent, synthesizeTask] ++
    (if lit "write_file" ∈ intent.permissions then [writeTask] else [])
  source := lit "template"

/-- `plan`: `answer` is the object found in the answer of the model, `none` where there is none. -/
def plan (lib : PlanLib) (intent : Intent) (answer : Option (List (PyKey × PyVal))) : TaskGraph :=
  match answer.map (parseTasks lib) with
  | some (.ok parsed) =>
    if parsed ≠ [] ∧ isAcyclicGraph parsed = true then ⟨intent.request, parsed, lit "llm"⟩
    else templateDag intent
  | _ => templateDag intent

/-- The planner can emit the graph. -/
def Emits (lib : PlanLib) (graph : TaskGraph) : Prop :=
  ∃ intent answer, plan lib intent answer = graph

end Agent
