import Msb.Conversation.Envelope

/-!
# Task contracts

`conversation/task_contract.py`: the validation of the entries of a dag. An entry with a `task_id`
is a contract, and every field of it is checked; an entry without one is the legacy form. A check
that fails adds an error, and an entry is accepted where there is none.

The checks read the fields with defaults of their own: an absent status is `READY`, an absent list
is empty. An `expected_output` without predicates is accepted, and so is a precondition on any task
of the dag.

* `validateContract_eq_nil` — what an accepted contract looks like
* `validateDag_eq_nil` — what an accepted dag looks like
-/

namespace Conversation

open Py Ledger

/-! ## Values -/

/-- `isinstance(v, (int, float))` -/
def isNumber : PyVal → Bool
  | .int _ | .float _ | .bool _ => true
  | _ => false

/-- `isinstance(v, int)` -/
def isInt : PyVal → Bool
  | .int _ | .bool _ => true
  | _ => false

/-- `isinstance(v, list)` -/
def isList : PyVal → Bool
  | .list _ => true
  | _ => false

/-- The number that a value compares as. `nan` compares with nothing. -/
def number : PyVal → Option (WithBot (WithTop ℚ))
  | .bool b => keyNum (.bool b)
  | .int i => keyNum (.int i)
  | .float f => keyNum (.float f)
  | _ => none

/-- `a < b`, on numbers. -/
def numLt (a b : PyVal) : Bool :=
  match number a, number b with
  | some x, some y => x < y
  | _, _ => false

/-- `a <= b`, on numbers. -/
def numLe (a b : PyVal) : Bool :=
  match number a, number b with
  | some x, some y => x ≤ y
  | _, _ => false

/-- `v in texts` -/
def isOneOf (v : PyVal) (texts : List String) : Bool := texts.any fun t => isText v (lit t)

/-- `v is None` -/
def isNull : PyVal → Bool
  | .none => true
  | _ => false

/-- The elements of a list. -/
def elems : PyVal → List PyVal
  | .list xs => xs
  | _ => []

/-- `isinstance(v, list) and all(isinstance(x, str) for x in v)` -/
def isTextList (v : PyVal) : Bool := isList v && (elems v).all isStr

def textOf : PyVal → Str
  | .str s => s
  | _ => []

/-- The texts of a list of texts. -/
def texts (v : PyVal) : List Str := (elems v).map textOf

/-- A key as a value. -/
def keyValue : PyKey → PyVal
  | .none => .none
  | .bool b => .bool b
  | .int i => .int i
  | .float f => .float f
  | .str s => .str s

def keysOf : PyVal → List PyKey
  | .dict items => items.map Prod.fst
  | _ => []

/-- `v.get(key, default)`, for a dict. -/
def fieldOr (v : PyVal) (key : String) (default : PyVal) : PyVal :=
  match v with
  | .dict items => (getItem items (lit key)).getD default
  | _ => default

def field (v : PyVal) (key : String) : PyVal := fieldOr v key .none

/-- `sorted(keys)` -/
def sortKeys (keys : List PyKey) : Except PyError (List PyKey) :=
  if comparable keys then .ok (keys.insertionSort fun a b => ¬ b.lt a = true) else .error .typeError

def colon : CodePoint := 58

/-- `s.split(":", 1)[0]` -/
def beforeColon (s : Str) : Str := s.takeWhile fun c => c ≠ colon

/-- `s.rsplit(":", 1)`, for a text with a colon. -/
def splitLastColon (s : Str) : Str × Str :=
  ((s.reverse.dropWhile fun c => c ≠ colon).tail.reverse,
    (s.reverse.takeWhile fun c => c ≠ colon).reverse)

/-- A check that fails is an error. -/
def complain (c : Prop) [Decidable c] (message : Str) : List Str := if c then [message] else []

@[simp] theorem complain_eq_nil {c : Prop} [Decidable c] {message : Str} :
    complain c message = [] ↔ ¬ c := by
  unfold complain
  by_cases h : c <;> simp [h]

/-! ## Predicates -/

inductive ArgType where
  | int
  | str
  | any
  deriving DecidableEq

def ArgType.name : ArgType → Str
  | .int => lit "int"
  | .str => lit "str"
  | .any => lit "object"

def ArgType.accepts : ArgType → PyVal → Bool
  | .int, v => isInt v
  | .str, v => isStr v
  | .any, _ => true

/-- `_PREDICATE_ARGS` -/
def predicateArgs : List (String × List (String × ArgType)) :=
  [("exit_code", [("code", .int)]), ("file_exists", [("path", .str)]),
    ("file_contains", [("path", .str), ("text", .str)]),
    ("file_not_contains", [("path", .str), ("text", .str)]),
    ("output_equals", [("expected", .any)]),
    ("artifact_hash", [("path", .str), ("sha256", .str)])]

/-- The arguments of a kind, where it is known. -/
def argsOfKind (kind : PyVal) : Option (List (String × ArgType)) :=
  (predicateArgs.find? fun p => isText kind (lit p.1)).map Prod.snd

def natText (n : Nat) : Str := (intLit n).text

section

variable (lib : Texts)

/-- The errors of one predicate. -/
def predicateErrors (i : Nat) (pred : PyVal) : List Str :=
  let here := lit "predicate " ++ natText i
  if isDict pred = false then [here ++ lit " must be an object"]
  else
    let kind := field pred "kind"
    match argsOfKind kind with
    | none =>
      [here ++ lit ": unknown kind " ++ lib.repr kind ++
        lit " (registry: ['artifact_hash', 'exit_code', 'file_contains', " ++
        lit "'file_exists', 'file_not_contains', 'output_equals'])"]
    | some args =>
      let here := here ++ lit " (" ++ textOf kind ++ lit ")"
      (args.flatMap fun (arg, type) =>
        if hasKey pred arg = false
          then [here ++ lit ": missing required arg " ++ lib.repr (.str (lit arg))]
        else complain (type.accepts (field pred arg) = false)
          (here ++ lit ": arg " ++ lib.repr (.str (lit arg)) ++ lit " must be " ++ type.name)) ++
      (keysOf pred).flatMap fun key =>
        complain (key ∉ (PyKey.str (lit "kind") :: args.map fun a => .str (lit a.1)))
          (here ++ lit ": unknown arg " ++ lib.repr (keyValue key))

/-- `_validate_predicates` -/
def validatePredicates (predicates : PyVal) : List Str :=
  if isList predicates = false then [lit "expected_output.predicates must be a list"]
  else (elems predicates).zipIdx.flatMap fun (pred, i) => predicateErrors lib i pred

/-! ## Contracts -/

def contractFields : List String :=
  ["task_id", "objective", "skill", "args", "inputs", "allowed_tools", "allowed_data",
    "constraints", "preconditions",
    "expected_output", "verification", "side_effects", "rollback", "confidence", "parent", "status"]

def legacyFields : List String := ["skill", "args"]

def validConstraintKeys : List String := ["budget_cap_usd", "max_steps", "stall_threshold"]

def validStatuses : List String :=
  ["READY", "RUNNING", "SUBMITTED", "VERIFIED", "FAILED", "ROLLED_BACK"]

/-- The keys of an entry that no field has. -/
def unknownKeys (entry : PyVal) (fields : List String) : List PyKey :=
  (keysOf entry).filter fun key => key ∉ fields.map fun f => PyKey.str (lit f)

/-- The legacy form. -/
def legacyErrors (entry : PyVal) : Except PyError (List Str) := do
  let unknown ← sortKeys (unknownKeys entry legacyFields)
  let skill := field entry "skill"
  .ok (complain (unknown ≠ [])
    (lit "legacy dag entry: unknown fields " ++ lib.repr (.list (unknown.map keyValue)) ++
      lit " (only 'skill' and 'args' allowed)") ++
    complain (isStr skill = false ∨ truthy skill = false)
      (lit "legacy dag entry requires a non-empty 'skill'"))

/-- The beginning of an error. -/
def ofTask (taskId : Str) (message : Str) : Str :=
  lit "task " ++ lib.repr (.str taskId) ++ lit ": " ++ message

variable (taskId : Str) (ids : List Str) (entry : PyVal)

/-- `isinstance(v, str) and v.strip()` -/
def isFilled (v : PyVal) : Bool := isStr v && strip (textOf v) ≠ []

def headErrors : List Str :=
  (["objective", "skill"].flatMap fun name =>
    complain (isFilled (field entry name) = false)
      (ofTask lib taskId (lit name ++ lit " must be a non-empty string"))) ++
  complain (isNull (field entry "args") = false ∧ isDict (field entry "args") = false)
    (ofTask lib taskId (lit "args must be an object"))

def inputErrors : List Str :=
  let inputs := fieldOr entry "inputs" (.list [])
  if isTextList inputs = false then [ofTask lib taskId (lit "inputs must be a list of strings")]
  else (texts inputs).flatMap fun i =>
    let part := beforeColon i
    if part = []
      then [ofTask lib taskId (lit "input " ++ lib.repr (.str i) ++ lit " has no task reference")]
    else if part = taskId then [ofTask lib taskId (lit "input cannot reference itself")]
    else complain (part ∉ ids)
      (ofTask lib taskId (lit "input " ++ lib.repr (.str i) ++ lit " references an unknown task"))

def envelopeErrors : List Str := ["allowed_tools", "allowed_data"].flatMap fun name =>
  complain (isTextList (fieldOr entry name (.list [])) = false)
    (ofTask lib taskId (lit name ++ lit " must be a list of strings"))

def constraintErrors : List Str :=
  let constraints := field entry "constraints"
  if isNull constraints then []
  else if isDict constraints = false then [ofTask lib taskId (lit "constraints must be an object")]
  else
    let budget := field constraints "budget_cap_usd"
    let steps := field constraints "max_steps"
    ((keysOf constraints).flatMap fun key =>
      complain (key ∉ validConstraintKeys.map fun f => PyKey.str (lit f))
        (ofTask lib taskId (lit "unknown constraint " ++ lib.repr (keyValue key)))) ++
    (validConstraintKeys.flatMap fun name =>
      complain (hasKey constraints name = true ∧ isNumber (field constraints name) = false)
        (ofTask lib taskId (lit "constraint " ++ lit name ++ lit " must be numeric"))) ++
    complain (isNumber budget = true ∧ numLt budget (.int 0) = true)
      (ofTask lib taskId (lit "budget_cap_usd cannot be negative")) ++
    complain (isInt steps = true ∧ numLt steps (.int 1) = true)
      (ofTask lib taskId (lit "max_steps must be >= 1"))

def preconditionErrors : List Str :=
  let preconditions := fieldOr entry "preconditions" (.list [])
  if isTextList preconditions = false then
    [ofTask lib taskId (lit "preconditions must be a list of 'task_id:VERIFIED' strings")]
  else (texts preconditions).flatMap fun p =>
    if colon ∉ p
      then [ofTask lib taskId
        (lit "precondition " ++ lib.repr (.str p) ++ lit " must be 'task_id:VERIFIED'")]
    else
      let (task, status) := splitLastColon p
      complain (task ∉ ids)
        (ofTask lib taskId (lit "precondition references unknown task " ++ lib.repr (.str task))) ++
      complain (status ≠ lit "VERIFIED")
        (ofTask lib taskId
          (lit "precondition " ++ lib.repr (.str p) ++ lit " must require VERIFIED status"))

/-- A list without predicates passes: what is asked for is that one of them is stronger, where there
are any. -/
def outputErrors : List Str :=
  let expected := field entry "expected_output"
  if isNull expected then []
  else if isDict expected = false then [ofTask lib taskId (lit "expected_output must be an object")]
  else
    let preds := fieldOr expected "predicates" (.list [])
    complain (hasKey expected "schema" = true ∧ isDict (field expected "schema") = false)
      (ofTask lib taskId (lit "expected_output.schema must be an object")) ++
    (validatePredicates lib preds).map (ofTask lib taskId) ++
    complain (isList preds = true ∧ truthy preds = true ∧
        ((elems preds).any fun p => isDict p && !isText (field p "kind") (lit "exit_code")) = false)
      (ofTask lib taskId
        (lit "expected_output must include >= 1 predicate stronger than exit_code"))

def verificationErrors : List Str :=
  complain (isOneOf (fieldOr entry "verification" (.str (lit "on_submit")))
    ["on_submit", "external"] = false)
    (ofTask lib taskId (lit "verification must be on_submit or external"))

def effectErrors : List Str :=
  let sideEffects := fieldOr entry "side_effects" (.list [])
  if isList sideEffects = false then [ofTask lib taskId (lit "side_effects must be a list")]
  else (elems sideEffects).flatMap fun s =>
    if isDict s = false then [ofTask lib taskId (lit "side effect must be an object")]
    else
      complain (isOneOf (field s "kind") ["file_write"] = false)
        (ofTask lib taskId (lit "unknown side-effect kind " ++ lib.repr (field s "kind"))) ++
      complain (isStr (field s "path") = false)
        (ofTask lib taskId (lit "side effect requires a string path"))

def rollbackErrors : List Str :=
  let rollback := field entry "rollback"
  if isNull rollback then []
  else if isDict rollback = false then [ofTask lib taskId (lit "rollback must be an object")]
  else if isOneOf (field rollback "kind") ["git_revert", "file_delete"] = false then
    [ofTask lib taskId (lit "unknown rollback kind " ++ lib.repr (field rollback "kind"))]
  else complain (isStr (field rollback "scope") = false)
    (ofTask lib taskId (lit "rollback requires a string scope"))

/-- The fields that take part in nothing else. -/
def tailErrors : List Str :=
  let confidence := field entry "confidence"
  let parent := field entry "parent"
  complain (isNull confidence = false ∧
      ¬ (isNumber confidence = true ∧ numLe (.int 0) confidence = true ∧
        numLe confidence (.int 1) = true))
    (ofTask lib taskId (lit "confidence must be a number in [0, 1]")) ++
  complain (isNull parent = false ∧ (isStr parent = false ∨ textOf parent ∉ ids))
    (ofTask lib taskId (lit "parent " ++ lib.repr parent ++ lit " must reference a known task_id"))

def statusErrors : List Str :=
  let status := fieldOr entry "status" (.str (lit "READY"))
  complain (isOneOf status validStatuses = false)
    (ofTask lib taskId (lit "invalid status " ++ lib.repr status))

/-- `validate_contract` -/
def validateContract : Except PyError (List Str) :=
  if isDict entry = false then .ok [lit "dag entry must be an object"]
  else if hasKey entry "task_id" = false then legacyErrors lib entry
  else do
    let unknown ← sortKeys (unknownKeys entry contractFields)
    let unknownErrors := complain (unknown ≠ []) (lit "task " ++ lib.repr (field entry "task_id") ++
      lit ": unknown contract fields " ++ lib.repr (.list (unknown.map keyValue)))
    if isFilled (field entry "task_id") = false then
      .ok (unknownErrors ++ [lit "task_id must be a non-empty string"])
    else
      let taskId := textOf (field entry "task_id")
      .ok (unknownErrors ++ headErrors lib taskId entry ++ inputErrors lib taskId ids entry ++
        envelopeErrors lib taskId entry ++ constraintErrors lib taskId entry ++
        preconditionErrors lib taskId ids entry ++
        outputErrors lib taskId entry ++ verificationErrors lib taskId entry ++
          effectErrors lib taskId entry ++
        rollbackErrors lib taskId entry ++ tailErrors lib taskId ids entry ++
          statusErrors lib taskId entry)

end

/-! ## Dags -/

def maxDagDepth : Nat := 3

def maxDagNodes : Nat := 50

def maxNodesPerLevel : Nat := 20

/-- The task ids of a dag, one for each entry that has one. -/
def taskIds (dag : List PyVal) : List Str :=
  (dag.filter fun e => isFilled (field e "task_id")).map fun e => textOf (field e "task_id")

/-- `parent_map.get(task_id)`: of entries with one id, the last. -/
def parentOf (dag : List PyVal) (taskId : Str) : PyVal :=
  match dag.reverse.find? fun e => isText (field e "task_id") taskId with
  | some e => field e "parent"
  | none => .none

/-- `_depth_of`, from the task on, with the tasks that were seen. What is no text, and no key, is a
`TypeError`. -/
def depthFrom (dag : List PyVal) : Nat → List Str → PyVal → Nat → Except PyError Nat
  | 0, _, _, _ => .ok (maxDagDepth + 1)
  | fuel + 1, seen, cur, depth =>
    match cur with
    | .none => .ok depth
    | .str t =>
      if t ∈ seen then .ok (maxDagDepth + 1)
      else depthFrom dag fuel (t :: seen) (parentOf dag t) (depth + 1)
    | .list _ | .dict _ => .error .typeError
    | _ => .ok (depth + 1)

/-- `_depth_of`: a chain of parents has no more tasks than the dag, and one that is in none. -/
def depthOf (dag : List PyVal) (taskId : Str) : Except PyError Nat :=
  depthFrom dag (dag.length + 3) [] (.str taskId) 0

/-- The key of the level of a task. What cannot be a key was a `TypeError` before. -/
def levelOf (dag : List PyVal) (taskId : Str) : PyKey :=
  match orElse (parentOf dag taskId) (.str (lit "<root>")) with
  | .bool b => .bool b
  | .int i => .int i
  | .float f => .float f
  | .str s => .str s
  | _ => .none

section

variable (lib : Texts)

/-- The ids that occur again, in their order. -/
def duplicateErrors : List Str → List Str → List Str
  | _, [] => []
  | seen, t :: ts =>
    complain (t ∈ seen) (lit "duplicate task_id " ++ lib.repr (.str t)) ++ duplicateErrors
      (t :: seen) ts

def depthErrors (dag : List PyVal) : Except PyError (List Str) := do
  let depths ← (taskIds dag).mapM fun t => (depthOf dag t).map fun depth => (t, depth)
  .ok (depths.flatMap fun (t, depth) => complain (maxDagDepth < depth)
    (lit "task " ++ lib.repr (.str t) ++ lit ": parent chain exceeds max_dag_depth=3"))

/-- The levels with too many tasks, in the order in which they come up. -/
def levelErrors (dag : List PyVal) : List Str :=
  let keys := (taskIds dag).map (levelOf dag)
  keys.reverse.dedup.reverse.flatMap fun key => complain (maxNodesPerLevel < keys.count key)
    (lit "level " ++ lib.repr (keyValue key) ++ lit " exceeds max_nodes_per_level=20")

/-- `validate_dag` -/
def validateDag (dag : PyVal) : Except PyError (List Str) :=
  if isList dag = false then .ok [lit "workflow.dag must be a list"]
  else do
    let entries := elems dag
    let ids := taskIds entries
    let sizeErrors := complain (maxDagNodes < entries.length) (lit "dag exceeds max_dag_nodes=50")
    let contractErrors ← entries.mapM (validateContract lib ids)
    let depth ← depthErrors lib entries
    .ok (sizeErrors ++ duplicateErrors lib [] ids ++ contractErrors.flatten ++ depth ++
      levelErrors lib entries)

end

/-! ## What is accepted -/

section

variable {lib : Texts} {ids : List Str} {entry dag : PyVal}

/-- A contract: an entry with a `task_id`. The rest is the legacy form. -/
def isContract (entry : PyVal) : Bool := hasKey entry "task_id"

/-- The id of a contract. -/
def idOf (entry : PyVal) : Str := textOf (field entry "task_id")

theorem isText_iff {v : PyVal} {t : Str} : isText v t = true ↔ v = .str t := by
  cases v <;> simp [isText]

theorem idOf_eq {t : Str} (h : isText (field entry "task_id") t = true) : idOf entry = t := by
  unfold idOf
  rw [isText_iff.mp h]
  rfl

theorem exists_of_mem_taskIds {dag : List PyVal} {t : Str} (h : t ∈ taskIds dag) :
    ∃ e ∈ dag, isText (field e "task_id") t = true := by
  obtain ⟨e, he, rfl⟩ := List.mem_map.mp h
  obtain ⟨hmem, hfilled⟩ := List.mem_filter.mp he
  refine ⟨e, hmem, ?_⟩
  have hstr := (Bool.and_eq_true_iff.mp hfilled).1
  cases hvalue : field e "task_id" with
  | str s => exact isText_iff.mpr rfl
  | _ =>
    rw [hvalue] at hstr
    cases hstr

/-- A contract without an error. -/
structure Accepted (lib : Texts) (ids : List Str) (entry : PyVal) : Prop where
  dict : isDict entry = true
  taskId : isFilled (field entry "task_id") = true
  inputs : inputErrors lib (idOf entry) ids entry = []
  envelope : envelopeErrors lib (idOf entry) entry = []
  constraints : constraintErrors lib (idOf entry) entry = []
  preconditions : preconditionErrors lib (idOf entry) ids entry = []
  output : outputErrors lib (idOf entry) entry = []
  effects : effectErrors lib (idOf entry) entry = []
  rollback : rollbackErrors lib (idOf entry) entry = []
  status : statusErrors lib (idOf entry) entry = []

/-- What an accepted contract has for its id. -/
theorem Accepted.taskId_eq {lib : Texts} {ids : List Str} {entry : PyVal}
    (h : Accepted lib ids entry) : field entry "task_id" = .str (idOf entry) := by
  have hfilled := (Bool.and_eq_true_iff.mp h.taskId).1
  unfold idOf
  cases hvalue : field entry "task_id" with
  | str t => rfl
  | _ =>
    rw [hvalue] at hfilled
    cases hfilled

theorem validateContract_eq_nil (h : validateContract lib ids entry = .ok [])
    (hcontract : isContract entry = true) : Accepted lib ids entry := by
  unfold isContract at hcontract
  unfold validateContract at h
  by_cases hdict : isDict entry = false
  · rw [if_pos hdict] at h
    cases h
  rw [if_neg hdict, hcontract, if_neg (by decide)] at h
  obtain ⟨unknown, -, h⟩ := bind_eq_ok.mp h
  by_cases hfilled : isFilled (field entry "task_id") = false
  · rw [if_pos hfilled] at h
    have hnil := Except.ok.inj h
    simp at hnil
  rw [if_neg hfilled] at h
  have hnil := Except.ok.inj h
  simp only [List.append_eq_nil_iff] at hnil
  obtain ⟨⟨⟨⟨⟨⟨⟨⟨⟨⟨⟨-, -⟩, hinputs⟩, henvelope⟩, hconstraints⟩, hpreconditions⟩, houtput⟩, -⟩,
    heffects⟩, hrollback⟩, -⟩, hstatus⟩ := hnil
  exact ⟨by simpa using hdict, by simpa using hfilled, hinputs, henvelope, hconstraints,
    hpreconditions, houtput, heffects, hrollback, hstatus⟩

/-- A status that is accepted, with the default for an absent one. -/
theorem Accepted.status_mem (h : Accepted lib ids entry) :
    isOneOf (fieldOr entry "status" (.str (lit "READY"))) validStatuses = true := by
  have hstatus := h.status
  unfold statusErrors at hstatus
  simpa using hstatus

/-- The preconditions are texts that end in `:VERIFIED`, and each is about a task of the dag. -/
theorem Accepted.precondition (h : Accepted lib ids entry) :
    isTextList (fieldOr entry "preconditions" (.list [])) = true ∧
      ∀ p ∈ texts (fieldOr entry "preconditions" (.list [])), colon ∈ p ∧
      (splitLastColon p).1 ∈ ids ∧ (splitLastColon p).2 = lit "VERIFIED" := by
  have hnil := h.preconditions
  simp only [preconditionErrors] at hnil
  by_cases htexts : isTextList (fieldOr entry "preconditions" (.list [])) = false
  · simp [htexts] at hnil
  · rw [if_neg htexts, List.flatMap_eq_nil_iff] at hnil
    refine ⟨by simpa using htexts, fun p hp => ?_⟩
    have hp' := hnil p hp
    by_cases hcolon : colon ∈ p
    · rw [if_neg (not_not.mpr hcolon)] at hp'
      simp only [List.append_eq_nil_iff, complain_eq_nil, not_not] at hp'
      exact ⟨hcolon, hp'⟩
    · rw [if_pos hcolon] at hp'
      cases hp'

/-- An accepted dag: its contracts have ids of their own, and each is accepted. -/
structure AcceptedDag (lib : Texts) (dag : PyVal) : Prop where
  list : isList dag = true
  nodup : (taskIds (elems dag)).Nodup
  entries : ∀ entry ∈ elems dag, validateContract lib (taskIds (elems dag)) entry = .ok []

theorem duplicateErrors_eq_nil : ∀ {seen ts : List Str}, duplicateErrors lib seen ts = [] →
    ts.Nodup ∧ ∀ t ∈ ts, t ∉ seen
  | _, [], _ => ⟨List.nodup_nil, fun _ ht => absurd ht List.not_mem_nil⟩
  | seen, t :: ts, h => by
    obtain ⟨hhead, htail⟩ := List.append_eq_nil_iff.mp h
    obtain ⟨hnodup, hfresh⟩ := duplicateErrors_eq_nil htail
    refine ⟨List.nodup_cons.mpr ⟨fun ht => hfresh t ht List.mem_cons_self, hnodup⟩, ?_⟩
    rintro u (_ | ⟨_, hu⟩)
    · exact complain_eq_nil.mp hhead
    · exact fun hseen => hfresh u hu (List.mem_cons_of_mem _ hseen)

theorem validateDag_eq_nil (h : validateDag lib dag = .ok []) : AcceptedDag lib dag := by
  unfold validateDag at h
  by_cases hlist : isList dag = false
  · rw [if_pos hlist] at h
    cases h
  rw [if_neg hlist] at h
  obtain ⟨contractErrors, hcontracts, h⟩ := bind_eq_ok.mp h
  obtain ⟨depth, -, h⟩ := bind_eq_ok.mp h
  have hnil := Except.ok.inj h
  simp only [List.append_eq_nil_iff] at hnil
  obtain ⟨⟨⟨⟨-, hduplicates⟩, hflat⟩, -⟩, -⟩ := hnil
  refine ⟨by simpa using hlist, (duplicateErrors_eq_nil hduplicates).1, fun entry hentry => ?_⟩
  obtain ⟨errors, herrors, hvalidate⟩ := exists_of_mapM_eq_ok hcontracts hentry
  rw [hvalidate, List.flatten_eq_nil_iff.mp hflat errors herrors]

end

end Conversation
