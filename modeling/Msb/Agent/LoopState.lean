import Msb.Infra.JsonIndent
import Msb.Ledger.Notary

/-!
# The state of the loop

`agent/execution_loop.py`: `_write_status` writes the status to a temporary file, renames it over
the status file, moves the status file to the backup and writes it once more. `_read_status` reads a
missing status file as a new status; the backup counts only where the status file does not parse.

* `statusOfText_payload` — a written status reads back
* `recovered_iff` — the crash points at which the status survives
* `not_recovered` — a crash after the backup was moved
-/

namespace Agent

open Py

/-! ## The dataclasses -/

/-- The fields of a dataclass with their defaults. -/
abbrev Schema := List (Str × PyVal)

/-- `IntegrityLocks` -/
def integrityLocks : Schema :=
  [(lit "scope_hash", .str []), (lit "artifacts_hash", .str []), (lit "last_result_hash", .str []),
    (lit "mission_hash", .str []), (lit "ethics_hash", .str []),
    (lit "allowed_tools_hash", .str [])]

/-- `Constraints` -/
def constraints : Schema :=
  [(lit "budget_spent_usd", .float (.zero false)),
    (lit "budget_cap_usd", .float (ofDecimal false 1 0)),
    (lit "max_loops", .int 12), (lit "stall_threshold", .int 3)]

/-- `ResourceUsage` -/
def resourceUsage : Schema :=
  [(lit "prompt_tokens", .int 0), (lit "completion_tokens", .int 0),
    (lit "cpu_seconds", .float (.zero false)),
    (lit "gpu_seconds", .float (.zero false)), (lit "disk_writes", .int 0)]

/-- An instance of a dataclass: a value for each field. -/
structure Instance (schema : Schema) where
  values : List PyVal
  length_eq : values.length = schema.length

/-- A dict from field names to values. -/
def fieldDict (schema : Schema) (values : List PyVal) : List (Str × PyVal) :=
  (schema.map Prod.fst).zip values

/-- `d.get(name, default)` for each field. -/
def fieldValues (schema : Schema) (items : List (PyKey × PyVal)) : List PyVal :=
  schema.map fun field => (Ledger.getItem items field.1).getD field.2

/-- A key that is no field: the constructor raises `TypeError`. -/
def hasUnknown (schema : Schema) (items : List (PyKey × PyVal)) : Prop :=
  ∃ p ∈ items, p.1 ∉ schema.map fun field => PyKey.str field.1

instance (schema : Schema) : DecidablePred (hasUnknown schema) :=
  fun _ => inferInstanceAs (Decidable (∃ _ ∈ _, _))

namespace Instance

variable {schema : Schema}

def default (schema : Schema) : Instance schema := ⟨schema.map Prod.snd, List.length_map _⟩

/-- `cls(**items)` -/
def ofItems (schema : Schema) (items : List (PyKey × PyVal)) : Except PyError (Instance schema) :=
  do
  raiseIf (hasUnknown schema items) .typeError
  .ok ⟨fieldValues schema items, List.length_map _⟩

/-- `asdict(self)` -/
def asdict (self : Instance schema) : PyVal :=
  .dict ((fieldDict schema self.values).map fun p => (.str p.1, p.2))

end Instance

/-- What `__post_init__` leaves as it is. -/
def notConverted : PyVal → Bool
  | .dict _ | .str _ => false
  | _ => true

/-- A field that holds an instance, after `__post_init__`. -/
inductive Part (schema : Schema) where
  | record (self : Instance schema)
  | raw (v : PyVal) (h : notConverted v = true)

namespace Part

variable {schema : Schema}

/-- `__post_init__` for a field. A text that is not the JSON of an instance gives the defaults. -/
def ofVal (schema : Schema) (v : PyVal) : Except PyError (Part schema) :=
  match v with
  | .dict items => (Instance.ofItems schema items).map .record
  | .str s =>
    match loads s with
    | .ok (.dict items) =>
      .ok (.record ((Instance.ofItems schema items).toOption.getD (.default schema)))
    | _ => .ok (.record (.default schema))
  | .none => .ok (.raw .none rfl)
  | .bool b => .ok (.raw (.bool b) rfl)
  | .int i => .ok (.raw (.int i) rfl)
  | .float f => .ok (.raw (.float f) rfl)
  | .list xs => .ok (.raw (.list xs) rfl)
  | .tuple xs => .ok (.raw (.tuple xs) rfl)

def asdict : Part schema → PyVal
  | .record self => self.asdict
  | .raw v _ => v

end Part

/-- `Status`. A value that JSON cannot write stands in `result` as its text. -/
structure Status where
  version : PyVal
  loopId : PyVal
  status : PyVal
  currentAction : PyVal
  nextAction : PyVal
  result : PyVal
  artifactsHash : PyVal
  integrityLocks : Part integrityLocks
  constraints : Part constraints
  resources : Part resourceUsage
  logs : PyVal
  iterations : PyVal

namespace Status

/-- `Status()` -/
def default : Status where
  version := .str (lit "1.0.0")
  loopId := .str []
  status := .str (lit "READY")
  currentAction := .str []
  nextAction := .str []
  result := .dict []
  artifactsHash := .str []
  integrityLocks := .record (.default _)
  constraints := .record (.default _)
  resources := .record (.default _)
  logs := .list []
  iterations := .int 0

/-- `asdict(self)`, with its keys as texts. -/
def fields (self : Status) : List (Str × PyVal) :=
  [(lit "version", self.version), (lit "loop_id", self.loopId), (lit "status", self.status),
    (lit "current_action", self.currentAction), (lit "next_action", self.nextAction),
    (lit "result", self.result), (lit "artifacts_hash", self.artifactsHash),
    (lit "integrity_locks", self.integrityLocks.asdict),
      (lit "constraints", self.constraints.asdict),
    (lit "resources", self.resources.asdict), (lit "logs", self.logs),
      (lit "iterations", self.iterations)]

/-- The fields with their defaults. -/
def schema : Schema := default.fields

/-- `Status(**items)` -/
def ofItems (items : List (PyKey × PyVal)) : Except PyError Status := do
  raiseIf (hasUnknown schema items) .typeError
  let get (name : Str) (default : PyVal) : PyVal := (Ledger.getItem items name).getD default
  let locks ← Part.ofVal Agent.integrityLocks
    (get (lit "integrity_locks") default.integrityLocks.asdict)
  let limits ← Part.ofVal Agent.constraints (get (lit "constraints") default.constraints.asdict)
  let usage ← Part.ofVal resourceUsage (get (lit "resources") default.resources.asdict)
  .ok
    { version := get (lit "version") default.version
      loopId := get (lit "loop_id") default.loopId
      status := get (lit "status") default.status
      currentAction := get (lit "current_action") default.currentAction
      nextAction := get (lit "next_action") default.nextAction
      result := get (lit "result") default.result
      artifactsHash := get (lit "artifacts_hash") default.artifactsHash
      integrityLocks := locks
      constraints := limits
      resources := usage
      logs := get (lit "logs") default.logs
      iterations := get (lit "iterations") default.iterations }

end Status

/-! ## The files -/

/-- The texts of `STATUS.json`, `STATUS.json.bak` and `STATUS.tmp`, where they exist. -/
structure Disk where
  status : Option Str
  backup : Option Str
  tmp : Option Str
  deriving DecidableEq

/-- `Status(**json.loads(text))` -/
def statusOfText (text : Str) : Except PyError Status :=
  match loads text with
  | .error e => .error e
  | .ok (.dict items) => Status.ofItems items
  | .ok _ => .error .typeError

/-- `_read_status` -/
def readStatus (disk : Disk) : Except PyError Status :=
  match disk.status with
  | none => .ok .default
  | some text =>
    match statusOfText text with
    | .ok s => .ok s
    | .error e =>
      if e = .jsonDecodeError ∨ e = .typeError then
        match disk.backup with
        | some backup => statusOfText backup
        | none => .ok .default
      else .error e

/-- `json.dumps(asdict(status), default=str, indent=2)` -/
def payload (S : KeySort) (s : Status) : Str :=
  renderIndent [10] (toJson S false (.dict (s.fields.map fun p => (.str p.1, p.2))))

/-- A file operation of `_write_status`. -/
inductive FileOp where
  | createTmp
  | fillTmp (text : Str)
  | tmpToStatus
  | statusToBackup

def FileOp.apply (disk : Disk) : FileOp → Disk
  | .createTmp => { disk with tmp := some [] }
  | .fillTmp text => { disk with tmp := some text }
  | .tmpToStatus => { disk with status := disk.tmp, tmp := none }
  | .statusToBackup => { disk with backup := disk.status, status := none }

/-- `_write_status`. `fsync` changes no file. -/
def writeStatus (S : KeySort) (s : Status) : List FileOp :=
  [.createTmp, .fillTmp (payload S s), .tmpToStatus, .statusToBackup, .createTmp,
    .fillTmp (payload S s), .tmpToStatus]

/-- The files after the first `k` operations. -/
def crashAfter (S : KeySort) (disk : Disk) (s : Status) (k : Nat) : Disk :=
  ((writeStatus S s).take k).foldl FileOp.apply disk

/-! ## What is read back -/

section

variable (S : KeySort)

/-- A value after a write and a read. -/
def reread (v : PyVal) : PyVal := ofJson (toJson S false v).joined

theorem notConverted_reread {v : PyVal} (h : notConverted v = true) :
    notConverted (reread S v) = true := by
  cases v with
  | none | bool | int | float | list | tuple => rfl
  | str s => cases h
  | dict items => cases h

def Instance.reread {schema : Schema} (self : Instance schema) : Instance schema :=
  ⟨self.values.map (Agent.reread S), (List.length_map _).trans self.length_eq⟩

def Part.reread {schema : Schema} : Part schema → Part schema
  | .record self => .record (self.reread S)
  | .raw v h => .raw (Agent.reread S v) (notConverted_reread S h)

/-- A status after a write and a read: tuples are lists, keys are texts, and surrogates are joined.
-/
def Status.reread (s : Status) : Status where
  version := Agent.reread S s.version
  loopId := Agent.reread S s.loopId
  status := Agent.reread S s.status
  currentAction := Agent.reread S s.currentAction
  nextAction := Agent.reread S s.nextAction
  result := Agent.reread S s.result
  artifactsHash := Agent.reread S s.artifactsHash
  integrityLocks := s.integrityLocks.reread S
  constraints := s.constraints.reread S
  resources := s.resources.reread S
  logs := Agent.reread S s.logs
  iterations := Agent.reread S s.iterations

/-! ### Dicts with known keys -/

/-- A dict that is written under names. -/
def named (items : List (Str × PyVal)) : List (PyKey × PyVal) := items.map fun p => (.str p.1, p.2)

variable {items : List (Str × PyVal)}

theorem getItem_named (hnodup : (items.map Prod.fst).Nodup) {name : Str} {v : PyVal}
    (h : (name, v) ∈ items) : Ledger.getItem (named items) name = some v := by
  induction items with
  | nil => exact absurd h List.not_mem_nil
  | cons p items ih =>
    obtain ⟨hfresh, htail⟩ := List.nodup_cons.mp hnodup
    unfold Ledger.getItem named at ih ⊢
    rw [List.map_cons, List.find?_cons]
    rcases List.mem_cons.mp h with rfl | hmem
    · simp
    · have hne : p.1 ≠ name := by
        rintro rfl
        exact hfresh (List.mem_map.mpr ⟨_, hmem, rfl⟩)
      simpa [hne] using ih htail hmem

/-- Names without surrogates stay as they are, and so does the dict. -/
theorem reread_named (hnames : ∀ p ∈ items, joinSurrogates p.1 = p.1)
    (hnodup : (items.map Prod.fst).Nodup) :
    reread S (.dict (named items)) = .dict (named (items.map fun p => (p.1, reread S p.2))) := by
  have hmembers : (items.map fun p => (keyText (.str p.1), toJson S false p.2)).map
      (fun p => (joinSurrogates p.1, p.2.joined)) = items.map fun p =>
      (p.1, (toJson S false p.2).joined) := by
    rw [List.map_map]
    exact List.map_congr_left fun p hp => Prod.ext (hnames p hp) rfl
  unfold reread named
  simp only [toJson, toJsonItems_eq, Bool.false_eq_true, if_false, List.map_map, Json.joined,
    joinedMembers_eq, Function.comp_def] at hmembers ⊢
  rw [hmembers, ofJson, ofJsonMembers_eq, List.map_map, dictOfPairs_of_nodup]
  · rw [List.map_map]
    rfl
  · rw [List.map_map]
    exact hnodup

theorem not_hasUnknown {schema : Schema} (h : items.map Prod.fst = schema.map Prod.fst) :
    ¬ hasUnknown schema (named items) := by
  rintro ⟨_, hp, hnot⟩
  obtain ⟨q, hq, rfl⟩ := List.mem_map.mp hp
  have hmem : q.1 ∈ schema.map Prod.fst := h ▸ List.mem_map_of_mem hq
  obtain ⟨field, hfield, hname⟩ := List.mem_map.mp hmem
  exact hnot (List.mem_map.mpr ⟨field, hfield, by rw [hname]⟩)

/-! ### Instances -/

/-- Names of fields: different texts without surrogates. -/
structure Schema.Clean (schema : Schema) : Prop where
  nodup : (schema.map Prod.fst).Nodup
  names : ∀ name ∈ schema.map Prod.fst, joinSurrogates name = name

variable {schema : Schema}

theorem fieldDict_names {values : List PyVal} (h : values.length = schema.length) :
    (fieldDict schema values).map Prod.fst = schema.map Prod.fst := by
  rw [fieldDict, List.map_fst_zip]
  rw [List.length_map, h]

theorem fieldValues_fieldDict (hclean : schema.Clean) {values : List PyVal}
    (h : values.length = schema.length) :
    fieldValues schema (named (fieldDict schema values)) = values := by
  have hnodup : ((fieldDict schema values).map Prod.fst).Nodup := by
    rw [fieldDict_names h]
    exact hclean.nodup
  refine List.ext_getElem ((List.length_map _).trans h.symm) fun i hi hi' => ?_
  have hmem : (schema[i].1, values[i]) ∈ fieldDict schema values := by
    rw [List.mem_iff_getElem]
    exact ⟨i, by simp [fieldDict, h]; omega, by simp [fieldDict]⟩
  simp only [fieldValues, List.getElem_map, getItem_named hnodup hmem, Option.getD_some]

/-- An instance reads back. -/
theorem ofVal_reread_record (hclean : schema.Clean) (self : Instance schema) :
    Part.ofVal schema (reread S self.asdict) = .ok (.record (self.reread S)) := by
  have hdict : reread S self.asdict = .dict (named (fieldDict schema (self.reread S).values)) := by
    have hnames := fieldDict_names self.length_eq
    refine (reread_named S (fun p hp => hclean.names _ ?_)
      (by rw [hnames]; exact hclean.nodup)).trans ?_
    · rw [← hnames]
      exact List.mem_map_of_mem hp
    · simp only [fieldDict, Instance.reread, List.zip_map_right]
      rfl
  have hlen := (self.reread S).length_eq
  have hof : Instance.ofItems schema (named (fieldDict schema (self.reread S).values)) =
      .ok (self.reread S) := by
    unfold Instance.ofItems
    refine bind_eq_ok.mpr ⟨(), raiseIf_eq_ok.mpr (not_hasUnknown (fieldDict_names hlen)), ?_⟩
    simp only [fieldValues_fieldDict hclean hlen]
  rw [hdict, Part.ofVal, hof]
  rfl

/-- A field reads back. -/
theorem ofVal_reread (hclean : schema.Clean) (part : Part schema) :
    Part.ofVal schema (reread S part.asdict) = .ok (part.reread S) := by
  cases part with
  | record self => exact ofVal_reread_record S hclean self
  | raw v h =>
    cases v with
    | none | bool | int | float | list | tuple => rfl
    | str s => cases h
    | dict items => cases h

theorem clean_integrityLocks : integrityLocks.Clean := ⟨by decide, by decide⟩

theorem clean_constraints : constraints.Clean := ⟨by decide, by decide⟩

theorem clean_resourceUsage : resourceUsage.Clean := ⟨by decide, by decide⟩

theorem clean_status : Status.schema.Clean := ⟨by decide, by decide⟩

/-! ### The status -/

/-- The fields of a status after a write and a read. -/
def Status.readFields (s : Status) : List (Str × PyVal) :=
  s.fields.map fun p => (p.1, Agent.reread S p.2)

theorem ofItems_readFields (s : Status) :
    Status.ofItems (named (s.readFields S)) = .ok (s.reread S) := by
  have hnames : (s.readFields S).map Prod.fst = Status.schema.map Prod.fst := rfl
  have hnodup : ((s.readFields S).map Prod.fst).Nodup := by
    rw [hnames]
    exact clean_status.nodup
  have hget : ∀ (i : Nat) (name : Str) (v : PyVal), (s.readFields S)[i]? = some (name, v) → ∀ d,
      (Ledger.getItem (named (s.readFields S)) name).getD d = v := fun i name v hi d => by
    rw [getItem_named hnodup (List.mem_of_getElem? hi)]
    rfl
  unfold Status.ofItems
  refine bind_eq_ok.mpr ⟨(), raiseIf_eq_ok.mpr (not_hasUnknown hnames), ?_⟩
  simp only []
  rw [hget 7 (lit "integrity_locks") _ rfl, hget 8 (lit "constraints") _ rfl,
    hget 9 (lit "resources") _ rfl, hget 0 (lit "version") _ rfl, hget 1 (lit "loop_id") _ rfl,
    hget 2 (lit "status") _ rfl, hget 3 (lit "current_action") _ rfl,
      hget 4 (lit "next_action") _ rfl,
    hget 5 (lit "result") _ rfl, hget 6 (lit "artifacts_hash") _ rfl, hget 10 (lit "logs") _ rfl,
    hget 11 (lit "iterations") _ rfl, ofVal_reread S clean_integrityLocks,
      ofVal_reread S clean_constraints,
    ofVal_reread S clean_resourceUsage]
  rfl

/-- **A written status reads back.** -/
theorem statusOfText_payload (s : Status) : statusOfText (payload S s) = .ok (s.reread S) := by
  have hloads : loads (payload S s) = .ok (.dict (named (s.readFields S))) := by
    have hnames : s.fields.map Prod.fst = Status.schema.map Prod.fst := rfl
    have hdict : reread S (.dict (named s.fields)) =
        .dict (named (s.fields.map fun p => (p.1, reread S p.2))) :=
      reread_named S (fun p hp => clean_status.names _ ?_) ?_
    · rw [loads, payload, parse_renderIndent (by simp [isWs])]
      exact congrArg Except.ok hdict
    · rw [← hnames]
      exact List.mem_map_of_mem hp
    · rw [hnames]
      exact clean_status.nodup
  rw [statusOfText, hloads]
  exact ofItems_readFields S s

/-! ## Crashes -/

/-- The status file is away: it was moved to the backup, and the second rename is still to come. -/
def InGap (k : Nat) : Prop := 4 ≤ k ∧ k ≤ 6

/-- The next `_read_status` returns what was there before, or what was to be written. -/
def Recovered (disk : Disk) (s : Status) (k : Nat) : Prop :=
  readStatus (crashAfter S disk s k) = readStatus disk ∨
    readStatus (crashAfter S disk s k) = .ok (s.reread S)

theorem readStatus_of_missing {disk : Disk} (h : disk.status = none) :
    readStatus disk = .ok .default := by
  rw [readStatus, h]

theorem readStatus_of_payload {disk : Disk} {s : Status} (h : disk.status = some (payload S s)) :
    readStatus disk = .ok (s.reread S) := by
  rw [readStatus, h]
  simp only [statusOfText_payload]

/-- The status file is read as before while it is not renamed over. -/
theorem readStatus_congr {disk after : Disk} (h : after.status = disk.status)
    (h' : after.backup = disk.backup) : readStatus after = readStatus disk := by
  rw [readStatus, readStatus, h, h']

/-- What is left after `k` operations. -/
theorem crashAfter_cases (disk : Disk) (s : Status) (k : Nat) :
    (k ≤ 2 ∧ (crashAfter S disk s k).status = disk.status ∧ (crashAfter S disk s k).backup =
      disk.backup) ∨ (InGap k ∧ (crashAfter S disk s k).status = none) ∨
      ((k = 3 ∨ 7 ≤ k) ∧ (crashAfter S disk s k).status = some (payload S s)) := by
  match k with
  | 0 | 1 | 2 => exact Or.inl ⟨by omega, rfl, rfl⟩
  | 3 => exact Or.inr (Or.inr ⟨Or.inl rfl, rfl⟩)
  | 4 | 5 | 6 => exact Or.inr (Or.inl ⟨⟨by omega, by omega⟩, rfl⟩)
  | k + 7 =>
    exact Or.inr
      (Or.inr ⟨Or.inr
        (by omega), by rw [crashAfter, List.take_of_length_le (by simp [writeStatus])]; rfl⟩)

/-- **The crash points at which the status survives**: all but those between the move to the backup
and the second rename, where it does if a new status is what was there or what was to be written. -/
theorem recovered_iff (disk : Disk) (s : Status) (k : Nat) :
    Recovered S disk s k ↔ (InGap k → readStatus disk = .ok .default ∨ s.reread S = .default) := by
  unfold Recovered
  rcases crashAfter_cases S disk s k with ⟨hk, hstatus, hbackup⟩ | ⟨hgap, hstatus⟩ | ⟨hk, hstatus⟩
  · have hnot : ¬ InGap k := fun h => absurd h.1 (by omega)
    rw [readStatus_congr hstatus hbackup]
    simp [hnot]
  · rw [readStatus_of_missing hstatus]
    constructor
    · rintro (h | h) -
      · exact Or.inl h.symm
      · exact Or.inr (Except.ok.inj h).symm
    · intro h
      rcases h hgap with h | h
      · exact Or.inl h.symm
      · exact Or.inr (congrArg Except.ok h.symm)
  · have hnot : ¬ InGap k := by
      rintro ⟨hlow, hhigh⟩
      omega
    rw [readStatus_of_payload S hstatus]
    simp [hnot]

/-! ### A crash in the gap -/

/-- A status after some rounds. -/
def roundStatus (iterations : Int) : Status := { Status.default with iterations := .int iterations }

/-- The fourth round is written, and the crash comes after the move to the backup: the loop starts
again. -/
theorem not_recovered :
    ¬ ∀ (S : KeySort) (disk : Disk) (s : Status) (k : Nat), Recovered S disk s k := by
  intro hall
  have hold : readStatus (crashAfter .insertion ⟨none, none, none⟩ (roundStatus 3) 7)
      = .ok ((roundStatus 3).reread .insertion) := readStatus_of_payload .insertion rfl
  have hread :
    readStatus (crashAfter .insertion (crashAfter .insertion ⟨none, none, none⟩ (roundStatus 3) 7)
      (roundStatus 4) 4) = .ok .default := readStatus_of_missing rfl
  rcases hall .insertion (crashAfter .insertion ⟨none, none, none⟩ (roundStatus 3) 7)
    (roundStatus 4) 4 with h | h
  · rw [hread, hold] at h
    have hiterations := congrArg Status.iterations (Except.ok.inj h)
    cases hiterations
  · rw [hread] at h
    have hiterations := congrArg Status.iterations (Except.ok.inj h)
    cases hiterations

end

end Agent
