import Msb.Conversation.Envelope
import Msb.Infra.FloatArith
import Msb.Infra.JsonJoined

/-!
# The trace of a run

`agent/trace.py`: what a run is recorded as, and the hash of what has to be the same in a replay.
The values come from tools and verifiers, so they may hold objects that JSON does not have. These
are written as their text (`default=str`).

* `canonical_list`, `canonical_record` — the tree of a value from those of its parts
* `same_record` — two dicts with one list of keys
-/

namespace Agent.Trace

open Py Ledger
open Conversation (lit_injective)

/-! ## Values -/

/-- An object of a type that JSON does not have, by what it answers. -/
structure Foreign where
  str : Except PyError Str
  int : Except PyError Int
  bool : Except PyError Bool

/-- A value of the language. A key of a type that JSON does not have is `none`. -/
inductive PyObj where
  | none
  | bool (b : Bool)
  | int (i : Int)
  | float (f : PyFloat)
  | str (s : Str)
  | list (xs : List PyObj)
  | tuple (xs : List PyObj)
  | dict (items : List (Option PyKey × PyObj))
  | foreign (x : Foreign)

abbrev Items := List (Option PyKey × PyObj)

/-- A dict with the keys of the source. -/
def record (fields : List (String × PyObj)) : Items :=
  fields.map fun p => (some (.str (lit p.1)), p.2)

/-- `d.get(key)` -/
def get (items : Items) (key : String) : Option PyObj :=
  (items.find? fun p => p.1 = some (.str (lit key))).map Prod.snd

def strs (xs : List Str) : PyObj := .list (xs.map .str)

def optStr : Option Str → PyObj
  | none => .none
  | some s => .str s

/-- `bool(v)` -/
def isTrue : PyObj → Except PyError Bool
  | .none => .ok false
  | .bool b => .ok b
  | .int i => .ok (i ≠ 0)
  | .float (.finite x) => .ok (x.abs ≠ 0)
  | .float _ => .ok true
  | .str s => .ok (s ≠ [])
  | .list xs | .tuple xs => .ok (!xs.isEmpty)
  | .dict items => .ok (!items.isEmpty)
  | .foreign x => x.bool

/-- `int(v)`. `int` is the built-in on texts. -/
def toInt (int : Str → Option Int) : PyObj → Except PyError Int
  | .bool b => .ok (if b then 1 else 0)
  | .int i => .ok i
  | .float (.finite x) => .ok (if x.neg then -(⌊x.abs⌋₊ : Int) else ⌊x.abs⌋₊)
  | .float (.inf _) =>
    .error (.raised (lit "OverflowError") (lit "cannot convert float infinity to integer"))
  | .float .nan => .error (.valueError (lit "cannot convert float NaN to integer"))
  | .str s =>
    match int s with
    | some i => .ok i
    | none => .error (.valueError (lit "invalid literal for int() with base 10"))
  | .foreign x => x.int
  | _ => .error .typeError

mutual

/-- What `json.dumps(v, default=str)` writes in the place of `v`. -/
def plain : PyObj → Except PyError PyVal
  | .none => .ok .none
  | .bool b => .ok (.bool b)
  | .int i => .ok (.int i)
  | .float f => .ok (.float f)
  | .str s => .ok (.str s)
  | .list xs => (plainElems xs).map .list
  | .tuple xs => (plainElems xs).map .tuple
  | .dict items => (plainItems items).map .dict
  | .foreign x => x.str.map .str

def plainElems : List PyObj → Except PyError (List PyVal)
  | [] => .ok []
  | x :: xs => do
    let v ← plain x
    let vs ← plainElems xs
    .ok (v :: vs)

def plainItems : List (Option PyKey × PyObj) → Except PyError (List (PyKey × PyVal))
  | [] => .ok []
  | (none, _) :: _ => .error .typeError
  | (some k, x) :: items => do
    let v ← plain x
    let vs ← plainItems items
    .ok ((k, v) :: vs)

end

mutual

/-- A value that was read. -/
def ofVal : PyVal → PyObj
  | .none => .none
  | .bool b => .bool b
  | .int i => .int i
  | .float f => .float f
  | .str s => .str s
  | .list xs => .list (ofElems xs)
  | .tuple xs => .tuple (ofElems xs)
  | .dict items => .dict (ofItems items)

def ofElems : List PyVal → List PyObj
  | [] => []
  | x :: xs => ofVal x :: ofElems xs

def ofItems : List (PyKey × PyVal) → Items
  | [] => []
  | (k, v) :: items => (some k, ofVal v) :: ofItems items

end

/-- `json.dumps(v, sort_keys=sortKeys, default=str)` -/
def dumpsStr (P : Platform) (sortKeys : Bool) (v : PyObj) : Except PyError Str := do
  let w ← plain v
  dumps P.keySort sortKeys lineStyle w

/-! ## Runs -/

/-- `Intent` -/
structure Intent where
  request : Str
  goals : List Str
  constraints : List Str
  permissions : List Str
  privacy : Bool
  domain : Option Str
  source : Str
  writeSuppressed : Bool

/-- `Intent.as_dict` -/
def Intent.asDict (x : Intent) : PyObj :=
  .dict (record [("request", .str x.request), ("goals", strs x.goals),
    ("constraints", strs x.constraints),
    ("permissions", strs x.permissions), ("privacy", .bool x.privacy), ("domain", optStr x.domain),
    ("source", .str x.source),
    ("write_suppressed", .bool x.writeSuppressed)])

/-- `Task` -/
structure Task where
  taskId : Str
  goal : Str
  parentId : Option Str
  inputs : List PyObj
  constraints : List Str
  requiredCapabilities : List Str
  tools : List Str
  permissions : List Str
  expectedOutput : Str
  verificationMethod : Str
  timeoutS : PyFloat
  retryPolicy : Str

/-- `Task.as_dict` -/
def Task.asDict (t : Task) : PyObj :=
  .dict (record [("task_id", .str t.taskId), ("goal", .str t.goal),
    ("parent_id", optStr t.parentId), ("inputs", .list t.inputs),
    ("constraints", strs t.constraints), ("required_capabilities", strs t.requiredCapabilities),
    ("tools", strs t.tools),
    ("permissions", strs t.permissions), ("expected_output", .str t.expectedOutput),
    ("verification_method", .str t.verificationMethod), ("timeout_s", .float t.timeoutS),
      ("retry_policy", .str t.retryPolicy)])

/-- `TaskGraph`, as far as the trace takes it over. -/
structure TaskGraph where
  tasks : List Task
  source : Str

/-- `TaskResult`, as far as the trace reads it. The output is a dict of the results of the tools. -/
structure TaskResult where
  taskId : Str
  ok : Bool
  output : List (Str × PyObj)
  verification : Items
  error : Option Str

/-- `ExecReport`, as far as the trace reads it. -/
structure ExecReport where
  ok : Bool
  results : List TaskResult
  skipped : List Str
  totalLatencyS : PyFloat
  error : Option Str

/-! ## `build_trace` -/

structure AgentTrace where
  runId : Str
  request : Str
  intent : PyObj
  graphSource : Str
  tasks : List PyObj
  execution : List PyObj
  verdict : Str
  outcome : PyObj
  createdTs : Str
  deterministicHash : Str

def AgentTrace.fields (t : AgentTrace) : List (String × PyObj) :=
  [("run_id", .str t.runId), ("request", .str t.request), ("intent", t.intent),
    ("graph_source", .str t.graphSource),
    ("tasks", .list t.tasks), ("execution", .list t.execution), ("verdict", .str t.verdict),
    ("outcome", t.outcome),
    ("created_ts", .str t.createdTs), ("deterministic_hash", .str t.deterministicHash)]

/-- `AgentTrace.as_dict` -/
def AgentTrace.asDict (t : AgentTrace) : Items := record t.fields

/-- What is hashed of a trace. -/
def hashed (fields : Items) : PyObj :=
  let field key := (get fields key).getD .none
  .dict (record (["request", "intent", "graph_source", "tasks", "execution", "verdict"].map
    fun key => (key, field key)))

/-- `compute_deterministic_hash` -/
def computeDeterministicHash (P : Platform) (fields : Items) : Except PyError Str := do
  let payload ← dumpsStr P true (hashed fields)
  let b ← encodeE payload
  .ok ((P.hexdigest b).take 16)

/-- The first eviction ledger in the output of a task. -/
def contextLedger : List (Str × PyObj) → Option Items
  | [] => none
  | (_, .dict items) :: output =>
    match get items "context_ledger" with
    | some (.dict ledger) => some ledger
    | _ => contextLedger output
  | _ :: output => contextLedger output

/-- The fields of a task in the trace. -/
def TaskResult.fields (r : TaskResult) : List (String × PyObj) :=
  [("task_id", .str r.taskId), ("ok", .bool r.ok), ("verification", .dict r.verification),
    ("error", optStr r.error)] ++
    (contextLedger r.output).toList.map fun ledger => ("context_ledger", .dict ledger)

/-- What a task is recorded as. -/
def TaskResult.entry (r : TaskResult) : PyObj := .dict (record r.fields)

/-- `int(value.get(key, 0) or 0)` -/
def tokens (int : Str → Option Int) (items : Items) (key : String) : Except PyError Int :=
  match get items key with
  | none => .ok 0
  | some v => do
    let counts ← isTrue v
    if counts then toInt int v else .ok 0

/-- The sums of the prompt tokens and of the completion tokens. -/
def sumTokens (int : Str → Option Int) : List PyObj → Int × Int → Except PyError (Int × Int)
  | [], sums => .ok sums
  | .dict items :: values, (prompt, completion) => do
    let p ← tokens int items "prompt_tokens"
    let c ← tokens int items "completion_tokens"
    sumTokens int values (prompt + p, completion + c)
  | _ :: values, sums => sumTokens int values sums

/-- `round((completion_tokens / 1000.0) * 0.001, 6)` -/
def estimatedCost (completionTokens : Int) : Except PyError PyFloat := do
  let count := PyFloat.ofInt completionTokens
  raiseIf (count.isFinite = false)
    (.raised (lit "OverflowError") (lit "int too large to convert to float"))
  .ok (((count.div (ofDecimal false 1000 0)).mul (ofDecimal false 1 (-3))).round 6)

def verdictOf (report : ExecReport) : Str := if report.ok then lit "PASS" else lit "FAIL"

/-- The trace before it is hashed, with the sums of the tokens. `now` is the time that it is built
at. -/
def draft (now runId request : Str) (intent : Intent) (graph : TaskGraph) (report : ExecReport)
    (sums : Int × Int) (cost : PyFloat) : AgentTrace where
  runId := runId
  request := request
  intent := intent.asDict
  graphSource := graph.source
  tasks := graph.tasks.map Task.asDict
  execution := report.results.map TaskResult.entry
  verdict := verdictOf report
  outcome := .dict (record [("skipped", strs report.skipped), ("error", optStr report.error),
    ("total_latency_s", .float report.totalLatencyS), ("prompt_tokens", .int sums.1),
    ("completion_tokens", .int sums.2),
    ("estimated_cost_usd", .float cost)])
  createdTs := now
  deterministicHash := []

/-- `build_trace` -/
def buildTrace (P : Platform) (int : Str → Option Int) (now runId request : Str) (intent : Intent)
    (graph : TaskGraph) (report : ExecReport) : Except PyError AgentTrace := do
  let sums ← sumTokens int (report.results.flatMap fun r => r.output.map Prod.snd) (0, 0)
  let cost ← estimatedCost sums.2
  let trace := draft now runId request intent graph report sums cost
  let hash ← computeDeterministicHash P trace.asDict
  .ok { trace with deterministicHash := hash }

/-- The dict of a trace after it was written and read. -/
def reread (P : Platform) (trace : AgentTrace) : Except PyError Items := do
  let text ← dumpsStr P false (.dict trace.asDict)
  let v ← loads text
  match v with
  | .dict items => .ok (ofItems items)
  | _ => .error .attributeError

/-! ## The tree of a value -/

section

variable {P : Platform}

/-- The tree that the sorted text of a value is read as. -/
def canonical (P : Platform) (v : PyObj) : Except PyError Json := do
  let w ← plain v
  raiseIf (sortable w = false) .typeError
  .ok (toJson P.keySort true w).joined

theorem plainElems_eq : ∀ xs, plainElems xs = xs.mapM plain
  | [] => rfl
  | x :: xs => by
    rw [plainElems, plainElems_eq xs, List.mapM_cons]
    rfl

theorem plainItems_record : ∀ fields : List (String × PyObj), plainItems (record fields) =
    ((fields.map Prod.snd).mapM plain).map fun vs =>
    (fields.map fun p => PyKey.str (lit p.1)).zip vs
  | [] => rfl
  | (key, x) :: fields => by
    have ih := plainItems_record fields
    rw [record] at ih
    simp only [record, List.map_cons, plainItems, ih, List.mapM_cons]
    cases plain x with
    | error e => rfl
    | ok v =>
      cases (fields.map Prod.snd).mapM plain with
      | error e => rfl
      | ok vs => rfl

theorem canonical_eq_ok {v : PyObj} {j : Json} : canonical P v = .ok j ↔
    ∃ w, plain v = .ok w ∧ sortable w = true ∧ (toJson P.keySort true w).joined = j := by
  unfold canonical
  simp only [bind_eq_ok, raiseIf_eq_ok, exists_unit, Except.ok.injEq, Bool.not_eq_false]

variable {xs : List PyObj} {fields : List (String × PyObj)}

/-- The trees of several values. -/
theorem mapM_canonical {js : List Json} : xs.mapM (canonical P) = .ok js ↔
    ∃ vs, xs.mapM plain = .ok vs ∧ vs.all sortable = true ∧
    vs.map (fun v => (toJson P.keySort true v).joined) = js := by
  have htrees : ∀ {vs : List PyVal}, xs.mapM plain = .ok vs → vs.all sortable = true →
      xs.mapM (canonical P) = .ok (vs.map fun v => (toJson P.keySort true v).joined) := by
    intro vs hvs hsort
    rw [mapM_eq_ok] at hvs ⊢
    rw [List.forall₂_map_right_iff]
    rw [List.all_eq_true] at hsort
    induction hvs with
    | nil => exact .nil
    | cons hv _ ih =>
      obtain ⟨hhead, htail⟩ := List.forall_mem_cons.mp hsort
      exact .cons (canonical_eq_ok.mpr ⟨_, hv, hhead, rfl⟩) (ih htail)
  constructor
  · intro hjs
    have hall := mapM_isOk.mp ⟨js, hjs⟩
    obtain ⟨vs, hvs⟩ := mapM_isOk.mpr fun x hx => by
      obtain ⟨k, hk⟩ := hall x hx
      obtain ⟨v, hv, -⟩ := canonical_eq_ok.mp hk
      exact ⟨v, hv⟩
    have hsort : vs.all sortable = true := by
      rw [List.all_eq_true]
      intro v hv
      obtain ⟨x, hx, hxv⟩ := exists_of_mem_mapM hvs hv
      obtain ⟨k, hk⟩ := hall x hx
      obtain ⟨v', hv', hsortable, -⟩ := canonical_eq_ok.mp hk
      rw [hxv] at hv'
      rwa [Except.ok.inj hv']
    rw [htrees hvs hsort] at hjs
    exact ⟨vs, hvs, hsort, Except.ok.inj hjs⟩
  · rintro ⟨vs, hvs, hsort, rfl⟩
    exact htrees hvs hsort

/-- **The tree of a list** is the list of the trees. -/
theorem canonical_list {j : Json} :
    canonical P (.list xs) = .ok j ↔ ∃ js, xs.mapM (canonical P) = .ok js ∧ .arr js = j := by
  simp only [canonical_eq_ok, mapM_canonical, plain, plainElems_eq, map_eq_ok]
  constructor
  · rintro ⟨_, ⟨vs, hvs, rfl⟩, hsort, rfl⟩
    rw [sortable, sortableElems_eq] at hsort
    refine ⟨_, ⟨vs, hvs, hsort, rfl⟩, ?_⟩
    simp [toJson, Json.joined]
  · rintro ⟨_, ⟨vs, hvs, hsort, rfl⟩, rfl⟩
    refine ⟨_, ⟨vs, hvs, rfl⟩, by rwa [sortable, sortableElems_eq], ?_⟩
    simp [toJson, Json.joined]

/-! ### Records -/

theorem unpaired_lit (s : String) : Unpaired (lit s) := by
  refine unpaired_of_forall fun c hc hhigh => ?_
  obtain ⟨x, -, rfl⟩ := List.mem_map.mp hc
  have hlt : x.toNat < 1114112 := by
    rcases x.valid with h | h <;> simp only [Char.toNat] <;> omega
  rw [Fin.val_ofNat, Nat.mod_eq_of_lt hlt] at hhigh
  rcases x.valid with h | h <;> simp only [Char.toNat] at hhigh <;> omega

/-- Members with increasing keys have only one such order. -/
theorem eq_of_increasing {kvs kvs' : List (Str × Json)} (hperm : kvs.Perm kvs')
    (h : kvs.Pairwise fun a b => a.1 < b.1)
    (h' : kvs'.Pairwise fun a b => a.1 < b.1) : kvs = kvs' :=
  List.Perm.eq_of_pairwise (fun _ _ _ _ hab hba => absurd hba (lt_asymm hab)) h h' hperm

/-- The members of a record that is written sorted: those of its fields, in the order of the keys.
-/
theorem joined_record {keys : List String} (hkeys : keys.Nodup) {vs : List PyVal}
    (hlength : vs.length = keys.length) :
    sortable (.dict ((keys.map fun key => PyKey.str (lit key)).zip vs)) = vs.all sortable ∧
    ∃ kvs, (toJson P.keySort true (.dict ((keys.map fun key => PyKey.str (lit key)).zip vs))).joined
      = .obj kvs ∧
      kvs.Perm ((keys.map lit).zip (vs.map fun v => (toJson P.keySort true v).joined)) ∧
      kvs.Pairwise fun a b => a.1 < b.1 := by
  set items := (keys.map fun key => PyKey.str (lit key)).zip vs with hitems
  have hfst : items.map Prod.fst = keys.map fun key => PyKey.str (lit key) :=
    List.map_fst_zip (by simp [hlength])
  have hsnd : items.map Prod.snd = vs := List.map_snd_zip (by simp [hlength])
  have hkey : ∀ k ∈ items.map Prod.fst, ∃ key, k = .str (lit key) := by
    rw [hfst]
    intro k hk
    obtain ⟨key, -, rfl⟩ := List.mem_map.mp hk
    exact ⟨key, rfl⟩
  have hstr : ∀ p ∈ items, p.1.isStr = true := by
    intro p hp
    obtain ⟨key, hk⟩ := hkey p.1 (List.mem_map_of_mem hp)
    rw [hk]
    rfl
  have hnd : (items.map Prod.fst).Nodup := by
    rw [hfst]
    exact hkeys.map fun a b hab => lit_injective (PyKey.str.inj hab)
  refine ⟨?_, ?_⟩
  · have hcomparable : comparable (items.map Prod.fst) = true := by
      unfold comparable
      rw [Bool.or_eq_true, Bool.or_eq_true]
      exact .inl (.inr (by simpa using fun k v h => hstr (k, v) h))
    rw [sortable, sortableItems_eq, hcomparable, Bool.true_and, ← hsnd, List.all_map]
    rfl
  · set ts := items.map fun p => (p.1, toJson P.keySort true p.2) with hts
    have hmem : ∀ p ∈ P.keySort.sort ts, ∃ key, p.1 = .str (lit key) := by
      intro p hp
      obtain ⟨q, hq, rfl⟩ := List.mem_map.mp ((P.keySort.perm ts).mem_iff.mp hp)
      exact hkey q.1 (List.mem_map_of_mem hq)
    -- the keys are ASCII, so joining surrogates leaves them
    have htext : ∀ key, joinSurrogates (keyText (.str (lit key))) = lit key := fun key =>
      joinSurrogates_of_unpaired (unpaired_lit key)
    refine ⟨(P.keySort.sort ts).map fun p => (joinSurrogates (keyText p.1), p.2.joined), ?_, ?_, ?_⟩
    · simp only [toJson, toJsonItems_eq, ← hts, if_true, Json.joined, joinedMembers_eq,
        List.map_map, Function.comp_def]
    · refine ((P.keySort.perm ts).map _).trans (.of_eq ?_)
      rw [hts, hitems, List.map_map, List.zip_map_left, List.map_map, List.zip_map]
      exact List.map_congr_left fun p _ => by simp [htext, Prod.map]
    · have hsorted : (P.keySort.sort ts).Pairwise fun a b => keyText a.1 < keyText b.1 :=
        sort_str_pairwise P.keySort (List.forall_mem_map.mpr hstr)
          (by simpa [hts, List.map_map, Function.comp_def] using hnd)
      refine List.pairwise_map.mpr (hsorted.imp_of_mem ?_)
      intro p q hp hq hlt
      obtain ⟨key, hk⟩ := hmem p hp
      obtain ⟨key', hk'⟩ := hmem q hq
      rw [hk, hk'] at hlt ⊢
      rw [htext, htext]
      exact hlt

/-- **The tree of a record** has the trees of its fields, in the order of the keys. -/
theorem canonical_record (hkeys : (fields.map Prod.fst).Nodup) {j : Json} :
    canonical P (.dict (record fields)) = .ok j ↔
    ∃ js, (fields.map Prod.snd).mapM (canonical P) = .ok js ∧
      ∃ kvs, .obj kvs = j ∧ kvs.Perm (((fields.map Prod.fst).map lit).zip js) ∧
      kvs.Pairwise fun a b => a.1 < b.1 := by
  have hzip : ∀ vs : List PyVal, (fields.map fun p => PyKey.str (lit p.1)).zip vs =
      ((fields.map Prod.fst).map fun key => PyKey.str (lit key)).zip vs := by
    simp [List.map_map, Function.comp_def]
  have hlength : ∀ {vs : List PyVal}, (fields.map Prod.snd).mapM plain = .ok vs →
      vs.length = (fields.map Prod.fst).length :=
    fun hvs => by simpa using (mapM_eq_ok.mp hvs).length_eq.symm
  simp only [canonical_eq_ok, mapM_canonical, plain, plainItems_record, map_eq_ok, hzip]
  constructor
  · rintro ⟨_, ⟨_, ⟨vs, hvs, rfl⟩, rfl⟩, hsort, rfl⟩
    obtain ⟨hsortable, kvs, hkvs, hperm, hpw⟩ := joined_record (P := P) hkeys (hlength hvs)
    exact ⟨_, ⟨vs, hvs, hsortable ▸ hsort, rfl⟩, kvs, hkvs.symm, hperm, hpw⟩
  · rintro ⟨_, ⟨vs, hvs, hsort, rfl⟩, kvs, rfl, hperm, hpw⟩
    obtain ⟨hsortable, kvs', hkvs', hperm', hpw'⟩ := joined_record (P := P) hkeys (hlength hvs)
    refine ⟨_, ⟨_, ⟨vs, hvs, rfl⟩, rfl⟩, hsortable ▸ hsort, ?_⟩
    rw [hkvs', eq_of_increasing (hperm.trans hperm'.symm) hpw hpw']

/-! ### The same tree -/

/-- Both are written sorted as one text. -/
def Same (P : Platform) (v w : PyObj) : Prop := canonical P v = canonical P w

variable (P) in
/-- The value has a sorted text. -/
def Writable (v : PyObj) : Prop := ∃ j, canonical P v = .ok j

/-- Two calls on every element return one list where they return the same on each. -/
theorem mapM_eq_mapM_iff {α β ε : Type} {f : α → Except ε β} : ∀ {xs ys : List α} {us vs : List β},
    xs.mapM f = .ok us → ys.mapM f = .ok vs →
    (us = vs ↔ List.Forall₂ (fun x y => f x = f y) xs ys) := by
  intro xs ys us vs hus hvs
  rw [mapM_eq_ok] at hus hvs
  constructor
  · rintro rfl
    induction hus generalizing ys with
    | nil =>
      cases hvs
      exact .nil
    | cons hx _ ih =>
      cases hvs with
      | cons hy hrest => exact .cons (hx.trans hy.symm) (ih hrest)
  · intro h
    induction h generalizing us vs with
    | nil =>
      cases hus
      cases hvs
      rfl
    | cons hxy _ ih =>
      cases hus with
      | cons hx hus =>
        cases hvs with
        | cons hy hvs => rw [ih hus hvs, Except.ok.inj (hx.symm.trans (hxy.trans hy))]

theorem writable_list : Writable P (.list xs) ↔ ∀ x ∈ xs, Writable P x := by
  unfold Writable
  simp only [canonical_list, ← mapM_isOk]
  exact ⟨fun ⟨_, js, hjs, _⟩ => ⟨js, hjs⟩, fun ⟨js, hjs⟩ => ⟨_, js, hjs, rfl⟩⟩

theorem same_list {ys : List PyObj} (hx : Writable P (.list xs)) (hy : Writable P (.list ys)) :
    Same P (.list xs) (.list ys) ↔ List.Forall₂ (Same P) xs ys := by
  obtain ⟨j, hj⟩ := hx
  obtain ⟨k, hk⟩ := hy
  obtain ⟨js, hjs, rfl⟩ := canonical_list.mp hj
  obtain ⟨ks, hks, rfl⟩ := canonical_list.mp hk
  rw [Same, hj, hk, Except.ok.injEq, Json.arr.injEq, mapM_eq_mapM_iff hjs hks]
  rfl

theorem writable_record (hkeys : (fields.map Prod.fst).Nodup) :
    Writable P (.dict (record fields)) ↔ ∀ p ∈ fields, Writable P p.2 := by
  have hfields : (∀ p ∈ fields, Writable P p.2) ↔ ∃ js, (fields.map Prod.snd).mapM (canonical P) =
      .ok js := by
    rw [mapM_isOk, List.forall_mem_map]
    rfl
  rw [hfields]
  constructor
  · rintro ⟨j, hj⟩
    obtain ⟨js, hjs, -⟩ := (canonical_record hkeys).mp hj
    exact ⟨js, hjs⟩
  · rintro ⟨js, hjs⟩
    obtain ⟨vs, hvs, hsort, rfl⟩ := mapM_canonical.mp hjs
    have hlength : vs.length = (fields.map Prod.fst).length := by
      simpa using (mapM_eq_ok.mp hvs).length_eq.symm
    obtain ⟨-, kvs, -, hperm, hpw⟩ := joined_record (P := P) hkeys hlength
    exact ⟨_, (canonical_record hkeys).mpr ⟨_, hjs, kvs, rfl, hperm, hpw⟩⟩

/-- Members with the same distinct keys in one order are the same in any order. -/
theorem eq_of_perm_of_keys : ∀ {kvs kvs' : List (Str × Json)}, kvs.Perm kvs' →
    kvs.map Prod.fst = kvs'.map Prod.fst → (kvs.map Prod.fst).Nodup → kvs = kvs'
  | [], _, hperm, _, _ => (List.nil_perm.mp hperm).symm
  | p :: kvs, [], hperm, _, _ => absurd (List.perm_nil.mp hperm) (List.cons_ne_nil _ _)
  | p :: kvs, q :: kvs', hperm, hkeys, hnd => by
    rw [List.map_cons, List.map_cons] at hkeys
    obtain ⟨hhead, htail⟩ := List.cons.inj hkeys
    rw [List.map_cons, List.nodup_cons, htail] at hnd
    rcases List.mem_cons.mp (hperm.mem_iff.mp List.mem_cons_self) with rfl | hmem
    · rw [eq_of_perm_of_keys (List.perm_cons p |>.mp hperm) htail (htail ▸ hnd.2)]
    · exact absurd (List.mem_map_of_mem hmem) hnd.1

/-- **Two records with the same keys are the same where their fields are.** -/
theorem same_record {fields' : List (String × PyObj)} (hkeys : (fields.map Prod.fst).Nodup)
    (heq : fields.map Prod.fst = fields'.map Prod.fst) (hx : Writable P (.dict (record fields)))
    (hy : Writable P (.dict (record fields'))) :
    Same P (.dict (record fields)) (.dict (record fields')) ↔
      List.Forall₂ (Same P) (fields.map Prod.snd) (fields'.map Prod.snd) := by
  obtain ⟨j, hj⟩ := hx
  obtain ⟨k, hk⟩ := hy
  obtain ⟨js, hjs, kvs, rfl, hperm, hpw⟩ := (canonical_record hkeys).mp hj
  obtain ⟨ks, hks, kvs', rfl, hperm', hpw'⟩ := (canonical_record (heq ▸ hkeys)).mp hk
  rw [Same, hj, hk, Except.ok.injEq, Json.obj.injEq]
  have htrees : List.Forall₂ (Same P) (fields.map Prod.snd) (fields'.map Prod.snd) ↔ js = ks :=
    (mapM_eq_mapM_iff hjs hks).symm
  rw [htrees]
  have hlength : ((fields.map Prod.fst).map lit).length = js.length := by
    simpa using (mapM_eq_ok.mp hjs).length_eq
  have hlength' : ((fields.map Prod.fst).map lit).length = ks.length := by
    simpa [heq] using (mapM_eq_ok.mp hks).length_eq
  rw [← heq] at hperm'
  constructor
  · rintro rfl
    have hkeyed : (((fields.map Prod.fst).map lit).zip js).map Prod.fst =
        (fields.map Prod.fst).map lit :=
      List.map_fst_zip hlength.le
    have hzip := eq_of_perm_of_keys (hperm.symm.trans hperm')
      (by rw [hkeyed, List.map_fst_zip hlength'.le]) (by rw [hkeyed]; exact hkeys.map lit_injective)
    have hsnd := congrArg (List.map Prod.snd) hzip
    rwa [List.map_snd_zip hlength.ge, List.map_snd_zip hlength'.ge] at hsnd
  · rintro rfl
    exact eq_of_increasing (hperm.trans hperm'.symm) hpw hpw'

/-- Records that are the same have the same keys. -/
theorem keys_of_same_record {fields' : List (String × PyObj)} (hkeys : (fields.map Prod.fst).Nodup)
    (hkeys' : (fields'.map Prod.fst).Nodup) (hx : Writable P (.dict (record fields)))
    (h : Same P (.dict (record fields)) (.dict (record fields'))) :
    (fields.map Prod.fst).Perm (fields'.map Prod.fst) := by
  obtain ⟨j, hj⟩ := hx
  obtain ⟨js, hjs, kvs, rfl, hperm, -⟩ := (canonical_record hkeys).mp hj
  obtain ⟨ks, hks, kvs', heq, hperm', -⟩ := (canonical_record hkeys').mp (h.symm.trans hj)
  obtain rfl := Json.obj.inj heq
  have hlength : ((fields.map Prod.fst).map lit).length ≤ js.length := by
    simpa using (mapM_eq_ok.mp hjs).length_eq.le
  have hlength' : ((fields'.map Prod.fst).map lit).length ≤ ks.length := by
    simpa using (mapM_eq_ok.mp hks).length_eq.le
  have hboth := (hperm.symm.trans hperm').map Prod.fst
  rw [List.map_fst_zip hlength, List.map_fst_zip hlength'] at hboth
  exact (List.map_perm_map_iff lit_injective).mp hboth

end

end Agent.Trace
