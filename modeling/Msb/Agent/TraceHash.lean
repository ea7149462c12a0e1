import Msb.Agent.Trace

/-!
# The replay hash

What `deterministic_hash` covers. The outputs of the tasks are left out but for their eviction
ledgers, so they can differ between two runs that have one hash. The hash recomputed from the stored
trace is the recorded one where writing and reading keep the order of the keys.

* `hash_eq_iff_agree` — what two runs with one hash have in common
* `outputs_covered_iff` — for which runs that is all of their outputs
* `reread_hash_iff` — when the recomputed hash is the recorded one
-/

namespace Agent.Trace

open Py Ledger
open Conversation (lit_injective)

/-! ## The hash -/

section

variable {P : Platform}

theorem dumpsStr_eq_ok {v : PyObj} {text : Str} : dumpsStr P true v = .ok text ↔
    ∃ w, plain v = .ok w ∧ sortable w = true ∧ render lineStyle (toJson P.keySort true w) =
    text := by
  unfold dumpsStr
  rw [bind_eq_ok]
  refine exists_congr fun w => and_congr_right fun _ => ?_
  unfold dumps
  cases sortable w <;> simp

theorem writable_iff {v : PyObj} : Writable P v ↔ ∃ text, dumpsStr P true v = .ok text := by
  simp only [Writable, canonical_eq_ok, dumpsStr_eq_ok]
  exact ⟨fun ⟨_, w, hw, hs, _⟩ => ⟨_, w, hw, hs, rfl⟩, fun ⟨_, w, hw, hs, _⟩ => ⟨_, w, hw, hs, rfl⟩⟩

/-- The sorted texts are one where the trees are. -/
theorem text_eq_iff {v w : PyObj} {text text' : Str} (hv : dumpsStr P true v = .ok text)
    (hw : dumpsStr P true w = .ok text') : text = text' ↔ Same P v w := by
  obtain ⟨v', hplain, hsort, rfl⟩ := dumpsStr_eq_ok.mp hv
  obtain ⟨w', hplain', hsort', rfl⟩ := dumpsStr_eq_ok.mp hw
  rw [render_eq_iff rfl, Same, canonical_eq_ok.mpr ⟨v', hplain, hsort, rfl⟩,
    canonical_eq_ok.mpr ⟨w', hplain', hsort', rfl⟩, Except.ok.injEq]

theorem encodeE_dumpsStr {v : PyObj} {text : Str} (h : dumpsStr P true v = .ok text) :
    ∃ b, encodeE text = .ok b := by
  obtain ⟨w, -, -, rfl⟩ := dumpsStr_eq_ok.mp h
  obtain ⟨b, hb⟩ := encode_of_ascii (ascii_render lineStyle rfl (toJson P.keySort true w))
  exact ⟨b, encodeE_eq_ok.mpr hb⟩

theorem computeDeterministicHash_eq_ok {fields : Items} {hash : Str} :
    computeDeterministicHash P fields = .ok hash ↔
    ∃ text b, dumpsStr P true (hashed fields) = .ok text ∧ encodeE text = .ok b ∧
    (P.hexdigest b).take 16 = hash := by
  unfold computeDeterministicHash
  simp only [bind_eq_ok, Except.ok.injEq]
  exact ⟨fun ⟨t, ht, b, hb, h⟩ => ⟨t, b, ht, hb, h⟩, fun ⟨t, b, ht, hb, h⟩ => ⟨t, ht, b, hb, h⟩⟩

theorem computeDeterministicHash_isOk {fields : Items} :
    (∃ hash, computeDeterministicHash P fields = .ok hash) ↔ Writable P (hashed fields) := by
  rw [writable_iff]
  simp only [computeDeterministicHash_eq_ok]
  constructor
  · rintro ⟨_, text, -, htext, -⟩
    exact ⟨text, htext⟩
  · rintro ⟨text, htext⟩
    obtain ⟨b, hb⟩ := encodeE_dumpsStr htext
    exact ⟨_, text, b, htext, hb, rfl⟩

variable (P) in
/-- The digits of the hash tell the texts of the two values apart. -/
def HashesApart (v w : PyObj) : Prop :=
  ∀ text text' b b', dumpsStr P true v = .ok text → dumpsStr P true w = .ok text' →
    encodeE text = .ok b → encodeE text' = .ok b' →
    (P.hexdigest b).take 16 = (P.hexdigest b').take 16 → text = text'

theorem hashesApart_self (v : PyObj) : HashesApart P v v :=
  fun _ _ _ _ htext htext' _ _ _ => Except.ok.inj (htext.symm.trans htext')

/-- **Two traces have one hash where what is hashed is the same.** -/
theorem hash_eq_iff {fields fields' : Items} {hash hash' : Str}
    (hapart : HashesApart P (hashed fields) (hashed fields'))
    (h : computeDeterministicHash P fields = .ok hash)
    (h' : computeDeterministicHash P fields' = .ok hash') :
    hash = hash' ↔ Same P (hashed fields) (hashed fields') := by
  obtain ⟨text, b, htext, hb, rfl⟩ := computeDeterministicHash_eq_ok.mp h
  obtain ⟨text', b', htext', hb', rfl⟩ := computeDeterministicHash_eq_ok.mp h'
  rw [← text_eq_iff htext htext']
  constructor
  · exact hapart text text' b b' htext htext' hb hb'
  · rintro rfl
    rw [Except.ok.inj (hb.symm.trans hb')]

end

/-! ## Runs -/

/-- What a trace is built from. -/
structure Run where
  now : Str
  runId : Str
  request : Str
  intent : Intent
  graph : TaskGraph
  report : ExecReport

/-- The trace of a run. -/
def Run.trace (P : Platform) (int : Str → Option Int) (run : Run) : Except PyError AgentTrace :=
  buildTrace P int run.now run.runId run.request run.intent run.graph run.report

/-- What of a run is hashed. -/
def Run.evidence (run : Run) : List (String × PyObj) :=
  [("request", .str run.request), ("intent", run.intent.asDict),
    ("graph_source", .str run.graph.source),
    ("tasks", .list (run.graph.tasks.map Task.asDict)),
    ("execution", .list (run.report.results.map TaskResult.entry)),
    ("verdict", .str (verdictOf run.report))]

/-- The tokens can be counted, and their cost estimated. -/
def Run.Counted (int : Str → Option Int) (run : Run) : Prop :=
  ∃ sums cost, sumTokens int (run.report.results.flatMap fun r => r.output.map Prod.snd) (0, 0) =
    .ok sums ∧ estimatedCost sums.2 = .ok cost

section

variable {P : Platform} {int : Str → Option Int} {run : Run}

theorem hashed_asDict (t : AgentTrace) : hashed t.asDict =
    .dict (record [("request", .str t.request), ("intent", t.intent),
    ("graph_source", .str t.graphSource), ("tasks", .list t.tasks),
    ("execution", .list t.execution),
    ("verdict", .str t.verdict)]) := by
  simp [hashed, AgentTrace.asDict, AgentTrace.fields, get, record, lit_injective.eq_iff]

/-- **What a built trace is.** -/
theorem trace_spec {t : AgentTrace} (h : run.trace P int = .ok t) : run.Counted int ∧
    hashed t.asDict = .dict (record run.evidence) ∧ computeDeterministicHash P t.asDict =
    .ok t.deterministicHash := by
  unfold Run.trace buildTrace at h
  obtain ⟨sums, hsums, h⟩ := bind_eq_ok.mp h
  obtain ⟨cost, hcost, h⟩ := bind_eq_ok.mp h
  obtain ⟨hash, hhash, h⟩ := bind_eq_ok.mp h
  obtain rfl := Except.ok.inj h
  refine ⟨⟨sums, cost, hsums, hcost⟩, hashed_asDict _, ?_⟩
  unfold computeDeterministicHash at hhash ⊢
  rw [hashed_asDict] at hhash ⊢
  exact hhash

/-- The hash depends on the evidence alone. -/
theorem hash_of_evidence {other : Run} {t u : AgentTrace} (ht : run.trace P int = .ok t)
    (hu : other.trace P int = .ok u)
    (h : run.evidence = other.evidence) : t.deterministicHash = u.deterministicHash := by
  obtain ⟨-, hev, hcompute⟩ := trace_spec ht
  obtain ⟨-, hev', hcompute'⟩ := trace_spec hu
  unfold computeDeterministicHash at hcompute hcompute'
  rw [hev, h] at hcompute
  rw [hev'] at hcompute'
  exact Except.ok.inj (hcompute.symm.trans hcompute')

theorem trace_eq {t : AgentTrace} (h : run.trace P int = .ok t) : ∃ sums cost,
    t = { draft run.now run.runId run.request run.intent run.graph run.report sums cost with
      deterministicHash := t.deterministicHash } := by
  unfold Run.trace buildTrace at h
  obtain ⟨sums, -, h⟩ := bind_eq_ok.mp h
  obtain ⟨cost, -, h⟩ := bind_eq_ok.mp h
  obtain ⟨hash, -, h⟩ := bind_eq_ok.mp h
  obtain rfl := Except.ok.inj h
  exact ⟨sums, cost, rfl⟩

/-- A trace is built where the tokens can be counted and the evidence can be written. -/
theorem trace_isOk : (∃ t, run.trace P int = .ok t) ↔ run.Counted int ∧
    Writable P (.dict (record run.evidence)) := by
  constructor
  · rintro ⟨t, ht⟩
    obtain ⟨hcounted, hev, hhash⟩ := trace_spec ht
    exact ⟨hcounted, hev ▸ computeDeterministicHash_isOk.mp ⟨_, hhash⟩⟩
  · rintro ⟨⟨sums, cost, hsums, hcost⟩, hwritable⟩
    have hdraft :=
      hashed_asDict (draft run.now run.runId run.request run.intent run.graph run.report sums cost)
    obtain ⟨hash, hhash⟩ := computeDeterministicHash_isOk.mpr (hdraft ▸ hwritable)
    exact ⟨_, bind_eq_ok.mpr
      ⟨sums, hsums, bind_eq_ok.mpr ⟨cost, hcost, bind_eq_ok.mpr ⟨hash, hhash, rfl⟩⟩⟩⟩

end

/-! ## Two runs -/

/-- What is hashed of two task results is the same. -/
structure SameEntry (P : Platform) (r s : TaskResult) : Prop where
  taskId : Same P (.str r.taskId) (.str s.taskId)
  ok : r.ok = s.ok
  verification : Same P (.dict r.verification) (.dict s.verification)
  error : Same P (optStr r.error) (optStr s.error)
  ledger : Option.Rel (fun l m => Same P (.dict l) (.dict m)) (contextLedger r.output)
    (contextLedger s.output)

/-- What is hashed of two runs is the same. -/
structure Agree (P : Platform) (a b : Run) : Prop where
  request : Same P (.str a.request) (.str b.request)
  intent : Same P a.intent.asDict b.intent.asDict
  source : Same P (.str a.graph.source) (.str b.graph.source)
  plan : List.Forall₂ (fun s t => Same P s.asDict t.asDict) a.graph.tasks b.graph.tasks
  verdict : a.report.ok = b.report.ok
  results : List.Forall₂ (SameEntry P) a.report.results b.report.results

section

variable {P : Platform} {int : Str → Option Int} {run : Run}

theorem same_bool {b c : Bool} : Same P (.bool b) (.bool c) ↔ b = c := by
  simp [Same, canonical, plain, raiseIf, sortable, toJson, Json.joined, bind, Except.bind]

/-- Two texts are the same if they are once their pairs of surrogates are joined. -/
theorem same_str {s t : Str} : Same P (.str s) (.str t) ↔ joinSurrogates s = joinSurrogates t := by
  simp [Same, canonical, plain, raiseIf, sortable, toJson, Json.joined, bind, Except.bind]

theorem same_verdict {x y : ExecReport} :
    Same P (.str (verdictOf x)) (.str (verdictOf y)) ↔ x.ok = y.ok := by
  have hjoin : ∀ s, joinSurrogates (lit s) = lit s :=
    fun s => joinSurrogates_of_unpaired (unpaired_lit s)
  rw [same_str, verdictOf, verdictOf]
  cases x.ok <;> cases y.ok <;> simp [hjoin, lit_injective.eq_iff]

theorem nodup_fields (r : TaskResult) : (r.fields.map Prod.fst).Nodup := by
  unfold TaskResult.fields
  cases contextLedger r.output <;> simp

theorem same_entry_iff {r s : TaskResult} (hr : Writable P r.entry) (hs : Writable P s.entry) :
    Same P r.entry s.entry ↔ SameEntry P r s := by
  by_cases hkeys : r.fields.map Prod.fst = s.fields.map Prod.fst
  · rw [TaskResult.entry, TaskResult.entry, same_record (nodup_fields r) hkeys hr hs]
    unfold TaskResult.fields at hkeys ⊢
    cases hl : contextLedger r.output with
    | none =>
      cases hm : contextLedger s.output with
      | none =>
        simp only [Option.toList_none, List.map_nil, List.append_nil, List.map_cons,
          List.forall₂_cons, List.Forall₂.nil, same_bool]
        exact ⟨fun ⟨h₁, h₂, h₃, h₄, _⟩ => ⟨h₁, h₂, h₃, h₄, by rw [hl, hm]; exact .none⟩,
          fun h => ⟨h.taskId, h.ok, h.verification, h.error, trivial⟩⟩
      | some m => simp [hl, hm] at hkeys
    | some l =>
      cases hm : contextLedger s.output with
      | none => simp [hl, hm] at hkeys
      | some m =>
        simp only [Option.toList_some, List.map_nil, List.cons_append, List.nil_append,
          List.map_cons, List.forall₂_cons, List.Forall₂.nil, same_bool]
        refine ⟨fun ⟨h₁, h₂, h₃, h₄, h₅, _⟩ => ⟨h₁, h₂, h₃, h₄, by rw [hl, hm]; exact .some h₅⟩,
          fun h => ?_⟩
        have hledger := h.ledger
        rw [hl, hm] at hledger
        cases hledger with
        | some hsame => exact ⟨h.taskId, h.ok, h.verification, h.error, hsame, trivial⟩
  · -- One of the two has a ledger, the other has none.
    refine iff_of_false (fun h => ?_) fun h => ?_
    · have hlength := (keys_of_same_record (nodup_fields r) (nodup_fields s) hr h).length_eq
      unfold TaskResult.fields at hlength hkeys
      cases hl : contextLedger r.output <;> cases hm : contextLedger s.output <;> simp [hl, hm]
        at hlength hkeys
    · have hledger := h.ledger
      unfold TaskResult.fields at hkeys
      cases hl : contextLedger r.output <;> cases hm : contextLedger s.output <;> simp [hl, hm]
        at hledger hkeys

theorem same_evidence_iff {a b : Run} (ha : Writable P (.dict (record a.evidence)))
    (hb : Writable P (.dict (record b.evidence))) :
    Same P (.dict (record a.evidence)) (.dict (record b.evidence)) ↔ Agree P a b := by
  have hkeys : (a.evidence.map Prod.fst).Nodup := by simp [Run.evidence]
  have hkeys' : (b.evidence.map Prod.fst).Nodup := by simp [Run.evidence]
  have hwa := (writable_record hkeys).mp ha
  have hwb := (writable_record hkeys').mp hb
  simp only [Run.evidence, List.forall_mem_cons] at hwa hwb
  obtain ⟨-, -, -, htasks, hexec, -⟩ := hwa
  obtain ⟨-, -, -, htasks', hexec', -⟩ := hwb
  have hentries := List.forall_mem_map.mp (writable_list.mp hexec)
  have hentries' := List.forall_mem_map.mp (writable_list.mp hexec')
  have hresults : List.Forall₂ (fun r s => Same P r.entry s.entry) a.report.results
    b.report.results ↔ List.Forall₂ (SameEntry P) a.report.results b.report.results := by
    rw [List.forall₂_iff_get, List.forall₂_iff_get]
    exact and_congr_right fun _ => forall_congr' fun i => forall_congr' fun hi =>
      forall_congr' fun hj =>
      same_entry_iff (hentries _ (List.getElem_mem hi)) (hentries' _ (List.getElem_mem hj))
  rw [same_record hkeys (show a.evidence.map Prod.fst = b.evidence.map Prod.fst from rfl) ha hb]
  simp only [Run.evidence, List.map_cons, List.map_nil, List.forall₂_cons,
    List.Forall₂.nil, and_true]
  rw [same_list htasks htasks', same_list hexec hexec', same_verdict, List.forall₂_map_left_iff,
    List.forall₂_map_right_iff, List.forall₂_map_left_iff, List.forall₂_map_right_iff, hresults]
  exact ⟨fun h => ⟨h.1, h.2.1, h.2.2.1, h.2.2.2.1, h.2.2.2.2.2, h.2.2.2.2.1⟩,
    fun h => ⟨h.request, h.intent, h.source, h.plan, h.results, h.verdict⟩⟩

/-- **What two runs with one hash have in common.** -/
theorem hash_eq_iff_agree {a b : Run} {t u : AgentTrace} (ht : a.trace P int = .ok t)
    (hu : b.trace P int = .ok u)
    (hapart : HashesApart P (.dict (record a.evidence)) (.dict (record b.evidence))) :
    t.deterministicHash = u.deterministicHash ↔ Agree P a b := by
  obtain ⟨-, hev, hhash⟩ := trace_spec ht
  obtain ⟨-, hev', hhash'⟩ := trace_spec hu
  rw [← hev, ← hev'] at hapart
  rw [hash_eq_iff hapart hhash hhash', hev, hev']
  exact same_evidence_iff (trace_isOk.mp ⟨t, ht⟩).2 (trace_isOk.mp ⟨u, hu⟩).2

/-! ### Outputs -/

/-- The output of a task, as a dict. -/
def TaskResult.outputDict (r : TaskResult) : PyObj :=
  .dict (r.output.map fun p => (some (.str p.1), p.2))

/-- The outputs have one sorted text. -/
def SameOutput (P : Platform) (r s : TaskResult) : Prop :=
  dumpsStr P true r.outputDict = dumpsStr P true s.outputDict

/-- Another output with the same tokens and the same ledger. -/
def carrier (key : String) (sums : Int × Int) (ledger : Option Items) : List (Str × PyObj) :=
  [(lit key, .dict (record ([("prompt_tokens", .int sums.1), ("completion_tokens", .int sums.2)] ++
    ledger.toList.map fun ledger => ("context_ledger", .dict ledger))))]

theorem sumTokens_append : ∀ (xs ys : List PyObj) (sums : Int × Int),
    sumTokens int (xs ++ ys) sums = sumTokens int xs sums >>= sumTokens int ys
  | [], _, _ => rfl
  | x :: xs, ys, sums => by
    have ih := sumTokens_append xs ys
    obtain ⟨prompt, completion⟩ := sums
    cases x with
    | dict items => simp only [List.cons_append, sumTokens, ih, bind_assoc]
    | _ => exact ih (prompt, completion)

theorem contextLedger_carrier (key : String) (sums : Int × Int) (ledger : Option Items) :
    contextLedger (carrier key sums ledger) = ledger := by
  cases ledger <;> simp [carrier, contextLedger, get, record, lit_injective.eq_iff]

theorem sumTokens_carrier (key : String) (sums : Int × Int) (ledger : Option Items) :
    sumTokens int ((carrier key sums ledger).map Prod.snd) (0, 0) = .ok sums := by
  have htokens : ∀ i : Int,
      (do let counts ← isTrue (.int i); if counts then toInt int (.int i) else .ok 0) = .ok i := by
    intro i
    by_cases hi : i = 0 <;> simp [isTrue, toInt, hi, bind, Except.bind]
  have hprompt :
    tokens int (record ([("prompt_tokens", .int sums.1), ("completion_tokens", .int sums.2)] ++
      ledger.toList.map fun ledger => ("context_ledger", .dict ledger))) "prompt_tokens" =
      .ok sums.1 := by
    simp only [tokens, get, record, List.cons_append, List.map_cons, List.find?_cons, decide_true,
      Option.map_some]
    exact htokens sums.1
  have hcompletion :
    tokens int (record ([("prompt_tokens", .int sums.1), ("completion_tokens", .int sums.2)] ++
      ledger.toList.map fun ledger => ("context_ledger", .dict ledger))) "completion_tokens" =
      .ok sums.2 := by
    simp only [tokens, get, record, List.cons_append, List.map_cons, List.find?_cons,
      Option.some.injEq, PyKey.str.injEq,
      lit_injective.eq_iff, String.reduceEq, decide_true, decide_false, Option.map_some]
    exact htokens sums.2
  simp only [carrier, List.map_cons, List.map_nil, sumTokens, hprompt, hcompletion]
  simp [bind, Except.bind]

theorem writable_atom {v : PyObj} {w : PyVal} (hv : plain v = .ok w) (hw : sortable w = true) :
    Writable P v :=
  ⟨_, canonical_eq_ok.mpr ⟨w, hv, hw, rfl⟩⟩

/-- Carriers under different keys are not the same output. -/
theorem carrier_ne {r : TaskResult} {sums : Int × Int} {ledger : Option Items}
    (hledger : ∀ l, ledger = some l → Writable P (.dict l)) :
    ¬SameOutput P { r with output := carrier "a" sums ledger }
        { r with output := carrier "b" sums ledger } := by
  have hvalue :
    Writable P (.dict
      (record ([("prompt_tokens", .int sums.1), ("completion_tokens", .int sums.2)] ++
      ledger.toList.map fun ledger => ("context_ledger", .dict ledger)))) := by
    refine (writable_record (by cases ledger <;> simp)).mpr fun p hp => ?_
    simp only [List.cons_append, List.nil_append, List.mem_cons, List.mem_map, Option.mem_toList]
      at hp
    rcases hp with rfl | rfl | ⟨l, hl, rfl⟩
    · exact writable_atom rfl rfl
    · exact writable_atom rfl rfl
    · exact hledger l hl
  have hwritable : ∀ key,
    Writable P (.dict (record [(key, .dict (record ([("prompt_tokens", .int sums.1),
      ("completion_tokens", .int sums.2)] ++ ledger.toList.map fun ledger =>
      ("context_ledger", .dict ledger))))])) := fun key =>
    (writable_record (by simp)).mpr fun p hp => by
      rw [List.mem_singleton.mp hp]
      exact hvalue
  intro hsame
  obtain ⟨text, htext⟩ := writable_iff.mp (hwritable "a")
  obtain ⟨text', htext'⟩ := writable_iff.mp (hwritable "b")
  have heq : text = text' := Except.ok.inj (htext.symm.trans ((show _ = _ from hsame).trans htext'))
  have hperm :=
    keys_of_same_record (by simp) (by simp) (hwritable "a") ((text_eq_iff htext htext').mp heq)
  simp at hperm

/-- The run with another output of its first task. -/
def Run.withOutput (run : Run) (r : TaskResult) (rest : List TaskResult)
    (output : List (Str × PyObj)) : Run :=
  { run with report := { run.report with results := { r with output } :: rest } }

/-- **The outputs are covered only where there are none.** -/
theorem outputs_covered_iff {t : AgentTrace} (ht : run.trace P int = .ok t) :
    (∀ (other : Run) (u : AgentTrace), other.trace P int = .ok u →
      HashesApart P (.dict (record run.evidence)) (.dict (record other.evidence)) →
      t.deterministicHash = u.deterministicHash →
      List.Forall₂ (SameOutput P) run.report.results other.report.results) ↔
      run.report.results = [] := by
  obtain ⟨hcounted, hwritable⟩ := trace_isOk.mp ⟨t, ht⟩
  constructor
  · intro h
    cases hresults : run.report.results with
    | nil => rfl
    | cons r rest =>
      obtain ⟨sums, cost, hsums, hcost⟩ := hcounted
      rw [hresults, List.flatMap_cons, sumTokens_append] at hsums
      obtain ⟨first, hfirst, hrest⟩ := bind_eq_ok.mp hsums
      have hentry : ∀ key,
          ({ r with output := carrier key first (contextLedger r.output) } : TaskResult).entry =
          r.entry := by
        intro key
        simp only [TaskResult.entry, TaskResult.fields, contextLedger_carrier]
      -- Another output in its place changes neither the tokens nor what is hashed.
      have hsame : ∀ key,
          SameOutput P r { r with output := carrier key first (contextLedger r.output) } := by
        intro key
        have hevidence :
            (run.withOutput r rest (carrier key first (contextLedger r.output))).evidence =
            run.evidence := by
          simp only [Run.evidence, Run.withOutput, hresults, List.map_cons, hentry key]
          rfl
        have hcount :
            (run.withOutput r rest (carrier key first (contextLedger r.output))).Counted int := by
          refine ⟨sums, cost, ?_, hcost⟩
          simp only [Run.withOutput]
          rw [List.flatMap_cons, sumTokens_append, sumTokens_carrier]
          exact hrest
        obtain ⟨u, hu⟩ := trace_isOk.mpr ⟨hcount, hevidence ▸ hwritable⟩
        have hall :=
          h _ u hu (hevidence ▸ hashesApart_self _) (hash_of_evidence ht hu hevidence.symm)
        rw [hresults] at hall
        exact (List.forall₂_cons.mp hall).1
      have hledger : ∀ ledger, contextLedger r.output = some ledger →
          Writable P (.dict ledger) := by
        have hexec := (writable_record (by simp [Run.evidence])).mp hwritable
          ("execution", .list (run.report.results.map TaskResult.entry)) (by simp [Run.evidence])
        have hr := writable_list.mp hexec r.entry
          (List.mem_map_of_mem (by rw [hresults]; exact List.mem_cons_self))
        intro ledger hledger
        exact (writable_record (nodup_fields r)).mp hr ("context_ledger", .dict ledger)
          (by simp [TaskResult.fields, hledger])
      exact absurd ((hsame "a").symm.trans (hsame "b")) (carrier_ne hledger)
  · intro hnone other u hu hapart hhash
    have hagree := ((hash_eq_iff_agree ht hu hapart).mp hhash).results
    rw [hnone] at hagree ⊢
    rw [List.forall₂_nil_left_iff.mp hagree]
    exact .nil

end

/-! ## Reading the trace -/

/-- In every dict of the value, the keys as they are sorted have increasing texts. -/
def Ordered (P : Platform) (v : PyObj) : Prop := ∀ j, canonical P v = .ok j → KeysIncreasing j

/-- Writing and reading keep the order of the keys in what comes from outside: inputs, verification
results and ledgers. -/
structure Run.Settled (P : Platform) (run : Run) : Prop where
  inputs : ∀ task ∈ run.graph.tasks, ∀ input ∈ task.inputs, Ordered P input
  verification : ∀ r ∈ run.report.results, Ordered P (.dict r.verification)
  ledger : ∀ r ∈ run.report.results, ∀ ledger, contextLedger r.output = some ledger →
    Ordered P (.dict ledger)

section

variable {P : Platform} {int : Str → Option Int} {run : Run}

theorem ordered_list {xs : List PyObj} (h : Writable P (.list xs)) :
    Ordered P (.list xs) ↔ ∀ x ∈ xs, Ordered P x := by
  obtain ⟨j, hj⟩ := h
  obtain ⟨js, hjs, rfl⟩ := canonical_list.mp hj
  unfold Ordered
  constructor
  · intro hall x hx k hk
    obtain ⟨k', hk', hxk⟩ := exists_of_mapM_eq_ok hjs hx
    have hinc := hall _ hj
    rw [KeysIncreasing, elemsIncreasing_iff] at hinc
    rw [hk] at hxk
    exact Except.ok.inj hxk ▸ hinc k' hk'
  · intro hall k hk
    rw [hj] at hk
    rw [← Except.ok.inj hk, KeysIncreasing, elemsIncreasing_iff]
    intro y hy
    obtain ⟨x, hx, hxy⟩ := exists_of_mem_mapM hjs hy
    exact hall x hx y hxy

theorem ordered_record {fields : List (String × PyObj)} (hkeys : (fields.map Prod.fst).Nodup)
    (h : Writable P (.dict (record fields))) :
    Ordered P (.dict (record fields)) ↔ ∀ p ∈ fields, Ordered P p.2 := by
  obtain ⟨j, hj⟩ := h
  obtain ⟨js, hjs, kvs, rfl, hperm, hpw⟩ := (canonical_record hkeys).mp hj
  have hlength : ((fields.map Prod.fst).map lit).length = js.length := by
    simpa using (mapM_eq_ok.mp hjs).length_eq
  have hmembers : (∀ p ∈ kvs, KeysIncreasing p.2) ↔ ∀ k ∈ js, KeysIncreasing k := by
    have hsnd := hperm.map Prod.snd
    rw [List.map_snd_zip hlength.ge] at hsnd
    rw [← List.forall_mem_map (f := Prod.snd)]
    simp only [hsnd.mem_iff]
  have hinc : Ordered P (.dict (record fields)) ↔ ∀ k ∈ js, KeysIncreasing k := by
    rw [← hmembers]
    constructor
    · intro hall
      have hkvs := hall _ hj
      rw [KeysIncreasing, membersIncreasing_iff] at hkvs
      exact hkvs.2
    · intro hall k hk
      rw [hj] at hk
      rw [← Except.ok.inj hk, KeysIncreasing, membersIncreasing_iff]
      exact ⟨hpw, hall⟩
  rw [hinc]
  constructor
  · intro hall p hp k hk
    obtain ⟨k', hk', hpk⟩ := exists_of_mapM_eq_ok hjs (List.mem_map_of_mem hp)
    rw [hk] at hpk
    exact Except.ok.inj hpk ▸ hall k' hk'
  · intro hall k hk
    obtain ⟨x, hx, hxk⟩ := exists_of_mem_mapM hjs hk
    obtain ⟨p, hp, rfl⟩ := List.mem_map.mp hx
    exact hall p hp k hxk

theorem ordered_atom {v : PyObj} {w : PyVal} (hv : plain v = .ok w)
    (hw : KeysIncreasing (toJson P.keySort true w).joined) : Ordered P v := by
  intro j hj
  obtain ⟨w', hw', -, rfl⟩ := canonical_eq_ok.mp hj
  rwa [← Except.ok.inj (hv.symm.trans hw')]

@[simp] theorem ordered_str (s : Str) : Ordered P (.str s) := ordered_atom rfl trivial

@[simp] theorem ordered_bool (b : Bool) : Ordered P (.bool b) := ordered_atom rfl trivial

@[simp] theorem ordered_float (f : PyFloat) : Ordered P (.float f) := ordered_atom rfl trivial

@[simp] theorem ordered_optStr (s : Option Str) : Ordered P (optStr s) := by
  cases s with
  | none => exact ordered_atom rfl trivial
  | some s => exact ordered_str s

theorem writable_strs (xs : List Str) : Writable P (strs xs) :=
  writable_list.mpr
    (List.forall_mem_map.mpr fun s _ =>
      writable_atom (show plain (.str s) = .ok (.str s) from rfl) rfl)

theorem writable_optStr (s : Option Str) : Writable P (optStr s) := by
  cases s with
  | none => exact writable_atom rfl rfl
  | some s => exact writable_atom (show plain (.str s) = .ok (.str s) from rfl) rfl

@[simp] theorem ordered_strs (xs : List Str) : Ordered P (strs xs) :=
  (ordered_list (writable_strs xs)).mpr (List.forall_mem_map.mpr fun s _ => ordered_str s)

theorem ordered_intent {x : Intent} (h : Writable P x.asDict) : Ordered P x.asDict := by
  refine (ordered_record (by simp) h).mpr ?_
  simp

theorem ordered_task {task : Task} (h : Writable P task.asDict) :
    Ordered P task.asDict ↔ ∀ input ∈ task.inputs, Ordered P input := by
  have hinputs := (writable_record (by simp)).mp h ("inputs", .list task.inputs) (by simp)
  rw [Task.asDict, ordered_record (by simp) h]
  simp [ordered_list hinputs]

theorem ordered_entry {r : TaskResult} (h : Writable P r.entry) : Ordered P r.entry ↔
    Ordered P (.dict r.verification) ∧ ∀ ledger, contextLedger r.output = some ledger →
    Ordered P (.dict ledger) := by
  rw [TaskResult.entry, ordered_record (nodup_fields r) h, TaskResult.fields]
  cases contextLedger r.output <;> simp

/-- What is hashed keeps its order where the parts from outside do. -/
theorem ordered_evidence (h : Writable P (.dict (record run.evidence))) :
    Ordered P (.dict (record run.evidence)) ↔ run.Settled P := by
  have hkeys : (run.evidence.map Prod.fst).Nodup := by simp [Run.evidence]
  have hparts := (writable_record hkeys).mp h
  simp only [Run.evidence, List.forall_mem_cons] at hparts
  obtain ⟨-, hintent, -, htasks, hexec, -⟩ := hparts
  have htask := List.forall_mem_map.mp (writable_list.mp htasks)
  have hentry := List.forall_mem_map.mp (writable_list.mp hexec)
  rw [ordered_record hkeys h]
  simp only [Run.evidence, List.forall_mem_cons, ordered_str, ordered_list htasks,
    ordered_list hexec, List.forall_mem_map, ordered_intent hintent, true_and]
  constructor
  · rintro ⟨hplan, hresults, -⟩
    exact ⟨fun task ht => (ordered_task (htask task ht)).mp (hplan task ht),
      fun r hr => ((ordered_entry (hentry r hr)).mp (hresults r hr)).1,
      fun r hr => ((ordered_entry (hentry r hr)).mp (hresults r hr)).2⟩
  · intro hsettled
    exact ⟨fun task ht => (ordered_task (htask task ht)).mpr (hsettled.inputs task ht),
      fun r hr => (ordered_entry (hentry r hr)).mpr
      ⟨hsettled.verification r hr, hsettled.ledger r hr⟩, by simp⟩

/-! ### What is read -/

theorem plainElems_ofElems {xs : List PyVal} (h : ∀ x ∈ xs, plain (ofVal x) = .ok x) :
    plainElems (ofElems xs) = .ok xs := by
  induction xs with
  | nil => rfl
  | cons x xs ih =>
    obtain ⟨hx, hxs⟩ := List.forall_mem_cons.mp h
    rw [ofElems, plainElems, hx, ih hxs]
    rfl

theorem plainItems_ofItems {items : List (PyKey × PyVal)}
    (h : ∀ p ∈ items, plain (ofVal p.2) = .ok p.2) : plainItems (ofItems items) = .ok items := by
  induction items with
  | nil => rfl
  | cons p items ih =>
    obtain ⟨hp, hitems⟩ := List.forall_mem_cons.mp h
    rw [ofItems, plainItems, hp, ih hitems]
    rfl

theorem plain_ofVal (v : PyVal) : plain (ofVal v) = .ok v := by
  induction v using PyVal.ind with
  | hlist xs ih | htuple xs ih =>
    rw [ofVal, plain, plainElems_ofElems ih]
    rfl
  | hdict items ih =>
    rw [ofVal, plain, plainItems_ofItems ih]
    rfl
  | _ => rfl

/-- A record is read field by field. -/
theorem reloadJoined_record {keys : List String} (hkeys : keys.Nodup) (S : KeySort)
    {vs : List PyVal} (hlength : vs.length = keys.length) :
    reloadJoined S (.dict ((keys.map fun key => PyKey.str (lit key)).zip vs)) =
      .dict ((keys.map fun key => PyKey.str (lit key)).zip (vs.map (reloadJoined S))) := by
  have htext : ∀ key, joinSurrogates (keyText (.str (lit key))) = lit key := fun key =>
    joinSurrogates_of_unpaired (unpaired_lit key)
  have hmembers : ((((keys.map fun key => PyKey.str (lit key)).zip vs).map fun p =>
      (joinSurrogates (keyText p.1), ofJson (toJson S false p.2).joined))) = (keys.map lit).zip
          (vs.map (reloadJoined S)) := by
    rw [List.zip_map_left, List.map_map, List.zip_map]
    exact List.map_congr_left fun ⟨key, v⟩ _ => by simp [htext, reloadJoined]
  have hnd : (((keys.map lit).zip (vs.map (reloadJoined S))).map Prod.fst).Nodup := by
    rw [List.map_fst_zip (by simp [hlength])]
    exact hkeys.map lit_injective
  have hread : reloadJoined S (.dict ((keys.map fun key => PyKey.str (lit key)).zip vs)) =
      .dict (dictOfPairs ((keys.map lit).zip (vs.map (reloadJoined S)))) := by
    rw [← hmembers]
    simp only [reloadJoined, toJson, toJsonItems_eq, Bool.false_eq_true, if_false, Json.joined,
      joinedMembers_eq, ofJson, ofJsonMembers_eq, List.map_map, Function.comp_def]
  rw [hread, dictOfPairs_of_nodup hnd, PyVal.dict.injEq]
  have hkey : (keys.map fun key => PyKey.str (lit key)) = (keys.map lit).map PyKey.str := by
    rw [List.map_map]; rfl
  rw [hkey]
  exact List.zip_map_left.symm

/-- The field of a record that was read. -/
theorem get_ofItems {g : PyVal → PyVal} : ∀ {fields : List (String × PyObj)} {vs : List PyVal},
    (fields.map Prod.fst).Nodup →
    (fields.map Prod.snd).mapM plain = .ok vs → ∀ p ∈ fields, ∃ v, plain p.2 = .ok v ∧
      get (ofItems ((fields.map fun p => PyKey.str (lit p.1)).zip (vs.map g))) p.1 =
      some (ofVal (g v))
  | [], _, _, _, _, hp => absurd hp List.not_mem_nil
  | q :: fields, vs, hkeys, hvs, p, hp => by
    rw [List.map_cons, List.nodup_cons] at hkeys
    rw [List.map_cons, List.mapM_cons] at hvs
    obtain ⟨v, hv, hvs⟩ := bind_eq_ok.mp hvs
    obtain ⟨vs', hvs', hvs⟩ := bind_eq_ok.mp hvs
    obtain rfl := Except.ok.inj hvs
    have hget : ∀ key,
      get (ofItems (((q :: fields).map fun p => PyKey.str (lit p.1)).zip ((v :: vs').map g))) key =
        if q.1 = key then some (ofVal (g v))
        else get (ofItems ((fields.map fun p => PyKey.str (lit p.1)).zip (vs'.map g))) key := by
      intro key
      by_cases hq : q.1 = key <;> simp [get, ofItems, hq, lit_injective.eq_iff]
    rw [hget]
    rcases List.mem_cons.mp hp with rfl | hp
    · exact ⟨v, hv, if_pos rfl⟩
    · have hne : q.1 ≠ p.1 := fun heq => hkeys.1 (heq ▸ List.mem_map_of_mem hp)
      rw [if_neg hne]
      exact get_ofItems hkeys.2 hvs' p hp

theorem plain_isOk_of_writable {v : PyObj} (h : Writable P v) : ∃ w, plain v = .ok w := by
  obtain ⟨j, hj⟩ := h
  obtain ⟨w, hw, -⟩ := canonical_eq_ok.mp hj
  exact ⟨w, hw⟩

/-- **The trace can be written and read**, and its dict is read field by field. -/
theorem reread_spec {t : AgentTrace} (ht : run.trace P int = .ok t) : ∃ vs,
    (t.fields.map Prod.snd).mapM plain = .ok vs ∧
    reread P t =
    .ok (ofItems
      ((t.fields.map fun p => PyKey.str (lit p.1)).zip (vs.map (reloadJoined P.keySort)))) ∧
    run.evidence ⊆ t.fields := by
  obtain ⟨-, hwritable⟩ := trace_isOk.mp ⟨t, ht⟩
  obtain ⟨sums, cost, hdraft⟩ := trace_eq ht
  have hevidence : run.evidence ⊆ t.fields := by
    rw [hdraft]
    simp [Run.evidence, AgentTrace.fields, draft]
  have hparts := (writable_record (by simp [Run.evidence])).mp hwritable
  have hplain : ∀ x ∈ t.fields.map Prod.snd, ∃ w, plain x = .ok w := by
    rw [List.forall_mem_map, hdraft]
    simp only [Run.evidence, List.forall_mem_cons] at hparts
    obtain ⟨-, hintent, -, htasks, hexec, -⟩ := hparts
    -- the outcome is made of texts and numbers alone
    have houtcome :
        Writable P (draft run.now run.runId run.request run.intent run.graph run.report sums
          cost).outcome := by
      refine (writable_record (by simp)).mpr ?_
      simp only [List.forall_mem_cons]
      exact ⟨writable_strs _, writable_optStr _, writable_atom rfl rfl, writable_atom rfl rfl,
        writable_atom rfl rfl, writable_atom rfl rfl, by simp⟩
    simp only [AgentTrace.fields, List.forall_mem_cons]
    exact ⟨⟨_, rfl⟩, ⟨_, rfl⟩, plain_isOk_of_writable hintent, ⟨_, rfl⟩,
      plain_isOk_of_writable htasks,
      plain_isOk_of_writable hexec, ⟨_, rfl⟩, plain_isOk_of_writable houtcome, ⟨_, rfl⟩,
      ⟨_, rfl⟩, by simp⟩
  obtain ⟨vs, hvs⟩ := mapM_isOk.mpr hplain
  have hlength : vs.length = (t.fields.map Prod.fst).length := by
    simpa using (mapM_eq_ok.mp hvs).length_eq.symm
  refine ⟨vs, hvs, ?_, hevidence⟩
  have hkeys : (fun p : String × PyObj => PyKey.str (lit p.1)) = (fun key => PyKey.str (lit key)) ∘
    Prod.fst := rfl
  have hdict : plain (.dict t.asDict) =
      .ok (.dict ((t.fields.map fun p => PyKey.str (lit p.1)).zip vs)) := by
    rw [AgentTrace.asDict, plain, plainItems_record, hvs]
    rfl
  have hreload := reloadJoined_record (by simp [AgentTrace.fields]) P.keySort hlength
  rw [List.map_map, ← hkeys] at hreload
  have hloads :
    loads (render lineStyle
      (toJson P.keySort false (.dict ((t.fields.map fun p => PyKey.str (lit p.1)).zip vs)))) =
      .ok (reloadJoined P.keySort
        (.dict ((t.fields.map fun p => PyKey.str (lit p.1)).zip vs))) := by
    rw [loads, parse_render_joined rfl]
    rfl
  unfold reread dumpsStr
  rw [hdict]
  show loads (render lineStyle (toJson P.keySort false _)) >>= _ = _
  rw [hloads, hreload]
  rfl

/-- **When the recomputed hash is the recorded one.** -/
theorem reread_hash_iff {t : AgentTrace} (ht : run.trace P int = .ok t) : ∃ items hash,
    reread P t = .ok items ∧ computeDeterministicHash P items = .ok hash ∧
    (HashesApart P (hashed items) (hashed t.asDict) →
        (hash = t.deterministicHash ↔ run.Settled P)) := by
  obtain ⟨vs, hvs, hreread, hsubset⟩ := reread_spec ht
  obtain ⟨-, hev, hcompute⟩ := trace_spec ht
  obtain ⟨-, hwritable⟩ := trace_isOk.mp ⟨t, ht⟩
  obtain ⟨j, hj⟩ := hwritable
  obtain ⟨w, hw, hsort, rfl⟩ := canonical_eq_ok.mp hj
  set items :=
    ofItems ((t.fields.map fun p => PyKey.str (lit p.1)).zip (vs.map (reloadJoined P.keySort)))
    with hitems
  -- What is hashed of the trace that was read is what is read of the evidence.
  have hread : plain (hashed items) = .ok (reloadJoined P.keySort w) := by
    rw [plain, plainItems_record, map_eq_ok] at hw
    obtain ⟨_, hitemsw, rfl⟩ := hw
    obtain ⟨us, hus, rfl⟩ := map_eq_ok.mp hitemsw
    have hlength : us.length = (run.evidence.map Prod.fst).length := by
      simpa using (mapM_eq_ok.mp hus).length_eq.symm
    have hreload := reloadJoined_record (by simp [Run.evidence]) P.keySort hlength
    rw [List.map_map] at hreload
    have hfields : (run.evidence.map fun p => (get items p.1).getD .none).mapM plain =
        .ok (us.map (reloadJoined P.keySort)) := by
      have hall := mapM_eq_ok.mp hus
      rw [List.forall₂_map_left_iff, List.forall₂_iff_zip] at hall
      rw [mapM_eq_ok, List.forall₂_map_left_iff, List.forall₂_map_right_iff, List.forall₂_iff_zip]
      refine ⟨hall.1, fun {p v} hpv => ?_⟩
      obtain ⟨v', hv', hget⟩ :=
        get_ofItems (by simp [AgentTrace.fields]) hvs p (hsubset (List.of_mem_zip hpv).1)
      rw [hget, ← Except.ok.inj (hv'.symm.trans (hall.2 hpv))]
      exact plain_ofVal _
    show plain (.dict (record (run.evidence.map fun p => (p.1, (get items p.1).getD .none)))) = _
    rw [plain, plainItems_record, List.map_map, List.map_map]
    show (((run.evidence.map fun p => (get items p.1).getD .none).mapM plain).map _).map _ = _
    rw [hfields]
    exact congrArg Except.ok hreload.symm
  have hsorted : sortable (reloadJoined P.keySort w) = true :=
    sortable_of_parsed _ (parsed_ofJson _)
  have hcanonical : canonical P (hashed items) =
      .ok (toJson P.keySort true (reloadJoined P.keySort w)).joined :=
    canonical_eq_ok.mpr ⟨_, hread, hsorted, rfl⟩
  obtain ⟨hash, hhash⟩ := computeDeterministicHash_isOk.mpr ⟨_, hcanonical⟩
  refine ⟨items, hash, hreread, hhash, fun hapart => ?_⟩
  rw [hash_eq_iff hapart hhash hcompute, hev, Same, hcanonical, hj, Except.ok.injEq,
    reloadJoined_iff, ← ordered_evidence ⟨_, hj⟩]
  constructor
  · intro hstable k hk
    rw [hj] at hk
    exact Except.ok.inj hk ▸ hstable
  · intro hordered
    exact hordered _ hj

end

/-- **What the replay hash covers**: two runs with one hash agree in all but the outputs, and only a
run without results has its outputs covered. The hash recomputed from the stored trace is the
recorded one where the order of the keys is kept. -/
theorem trace_hash_law (P : Platform) (int : Str → Option Int) :
    (∀ (a b : Run) (t u : AgentTrace), a.trace P int = .ok t → b.trace P int = .ok u →
      HashesApart P (.dict (record a.evidence)) (.dict (record b.evidence)) →
      (t.deterministicHash = u.deterministicHash ↔ Agree P a b)) ∧
    (∀ (run : Run) (t : AgentTrace), run.trace P int = .ok t →
      ((∀ (other : Run) (u : AgentTrace), other.trace P int = .ok u →
        HashesApart P (.dict (record run.evidence)) (.dict (record other.evidence)) →
        t.deterministicHash = u.deterministicHash →
        List.Forall₂ (SameOutput P) run.report.results other.report.results) ↔
          run.report.results = [])) ∧
    ∀ (run : Run) (t : AgentTrace), run.trace P int = .ok t → ∃ items hash, reread P t = .ok items ∧
      computeDeterministicHash P items = .ok hash ∧
      (HashesApart P (hashed items) (hashed t.asDict) →
          (hash = t.deterministicHash ↔ run.Settled P)) :=
  ⟨fun _ _ _ _ ht hu hapart => hash_eq_iff_agree ht hu hapart, fun _ _ ht => outputs_covered_iff ht,
    fun _ _ ht => reread_hash_iff ht⟩

/-- A search that found one text. -/
def searchRun (hit : String) : Run where
  now := lit "2026-01-01T00:00:00+00:00"
  runId := lit "run-1"
  request := lit "research the vault"
  intent := ⟨lit "research the vault", [lit "research the vault"], [], [], true, none,
    lit "fallback", false⟩
  graph := ⟨[⟨lit "t1", lit "search", none, [], [], [lit "read_vault"], [lit "search_query"], [],
    lit "hits", lit "search_returned_hits", ofDecimal false 60 0, lit "retry:2"⟩], lit "template"⟩
  report := ⟨true, [⟨lit "t1", true, [(lit "search_query", .list [.str (lit hit)])],
    record [("ok", .bool true), ("detail", .str (lit "1 hits")), ("kind", .str (lit "grounded")),
      ("check", .str (lit "search_returned_hits")), ("trust", .str (lit "high")),
      ("verdict", .str (lit "pass")),
      ("confidence", .float (ofDecimal false 1 0))], none⟩], [], .zero false, none⟩

theorem searchRun_isOk (hit : String) :
    ∃ t, (searchRun hit).trace Platform.tagged (fun _ => none) = .ok t := by
  have hcost : ∃ cost, estimatedCost 0 = .ok cost :=
    ⟨_, bind_eq_ok.mpr
      ⟨(), raiseIf_eq_ok.mpr (by simp [PyFloat.ofInt, ofDecimal, PyFloat.isFinite, PyFloat.zero]),
        rfl⟩⟩
  obtain ⟨cost, hcost⟩ := hcost
  exact trace_isOk.mpr ⟨⟨(0, 0), cost, rfl, hcost⟩, _, canonical_eq_ok.mpr ⟨_, rfl, rfl, rfl⟩⟩

/-- **One hash, two outputs.** -/
theorem outputs_not_covered : ¬∀ (P : Platform) (int : Str → Option Int) (a b : Run)
    (t u : AgentTrace),
    a.trace P int = .ok t → b.trace P int = .ok u → HashesApart P (.dict (record a.evidence))
    (.dict (record b.evidence)) →
    t.deterministicHash = u.deterministicHash →
        List.Forall₂ (SameOutput P) a.report.results b.report.results := by
  intro h
  obtain ⟨t, ht⟩ := searchRun_isOk "the first note"
  obtain ⟨u, hu⟩ := searchRun_isOk "the second note"
  have hevidence : (searchRun "the second note").evidence = (searchRun "the first note").evidence :=
    rfl
  have hall :=
    h _ _ _ _ t u ht hu (hevidence ▸ hashesApart_self _) (hash_of_evidence ht hu hevidence.symm)
  have hsame := (List.forall₂_cons.mp hall).1
  unfold SameOutput at hsame
  revert hsame
  decide +kernel

end Agent.Trace
