import Msb.Infra.JsonIndent
import Msb.Ledger.V2Verify

/-!
# The calibration store

`plei/calibration/store.py`: predictions and their outcomes, one JSON line for each, in a file that
several stores may append to. A record carries a hash of its fields and of the hash of the record
before it, as far as the store that writes it knows: it reads the last hash when it is opened, and
then remembers its own.

* `recordPrediction`, `recordOutcome` — the two ways to append
* `predictions`, `outcomes`, `pairs` — what is read back
* `verifyChain` — `verify_chain`
-/

namespace Plei.Calibration

open Py Ledger

/-! ## Predictions and outcomes -/

/-- The items of a dict. -/
abbrev Items := List (PyKey × PyVal)

/-- The annotated types. -/
inductive FieldType where
  | str
  | float
  | int
  | bool
  | floats
  | bools
  deriving DecidableEq

/-- A `bool` is an `int`. -/
def isInt : PyVal → Bool
  | .int _ | .bool _ => true
  | _ => false

/-- An `int` may stand for a `float`. -/
def isFloat : PyVal → Bool
  | .float _ | .int _ | .bool _ => true
  | _ => false

def isBool : PyVal → Bool
  | .bool _ => true
  | _ => false

def isStr : PyVal → Bool
  | .str _ => true
  | _ => false

/-- `dict[str, T]` -/
def isDictOf (is : PyVal → Bool) : PyVal → Bool
  | .dict items => items.all (fun p => p.1.isStr && is p.2) && decide (items.map Prod.fst).Nodup
  | _ => false

def FieldType.admits : FieldType → PyVal → Bool
  | .str => isStr
  | .float => isFloat
  | .int => isInt
  | .bool => isBool
  | .floats => isDictOf isFloat
  | .bools => isDictOf isBool

/-- A field of a dataclass. Without a default it must be given. -/
structure FieldSpec where
  name : Str
  type : FieldType
  default : Option PyVal

def projectDuration : Str := lit "project_duration"

def runDuration : Str := lit "run_duration"

/-- The fields of `Prediction`. -/
def predictionFields : List FieldSpec :=
  [⟨lit "prediction_id", .str, none⟩, ⟨lit "project", .str, none⟩, ⟨lit "forecast_at", .str, none⟩,
    ⟨lit "predicted_p50_days", .float, none⟩, ⟨lit "predicted_p80_days", .float, none⟩,
    ⟨lit "predicted_p95_days", .float, none⟩, ⟨lit "predicted_mean_days", .float, none⟩,
    ⟨lit "predicted_stdev_days", .float, none⟩, ⟨lit "predicted_failure_probability", .float, none⟩,
    ⟨lit "domain", .str, some (.str projectDuration)⟩,
      ⟨lit "milestone_predictions", .floats, some (.dict [])⟩,
    ⟨lit "confidence_level", .str, some (.str [])⟩,
    ⟨lit "coefficient_of_variation", .float, some (.float (.zero false))⟩,
    ⟨lit "trial_count", .int, some (.int 0)⟩, ⟨lit "seed", .int, some (.int 0)⟩,
    ⟨lit "variables_used", .int, some (.int 0)⟩,
    ⟨lit "calibration_status", .str, some (.str (lit "predicted"))⟩,
    ⟨lit "matched_outcome_id", .str, some (.str [])⟩]

/-- The fields of `Outcome`. -/
def outcomeFields : List FieldSpec :=
  [⟨lit "outcome_id", .str, none⟩, ⟨lit "prediction_id", .str, none⟩, ⟨lit "project", .str, none⟩,
    ⟨lit "observed_at", .str, none⟩, ⟨lit "actual_duration_days", .float, none⟩,
    ⟨lit "domain", .str, some (.str runDuration)⟩,
      ⟨lit "actual_completion", .bool, some (.bool false)⟩,
    ⟨lit "failures_encountered", .int, some (.int 0)⟩, ⟨lit "severity", .str, some (.str [])⟩,
    ⟨lit "milestone_outcomes", .bools, some (.dict [])⟩, ⟨lit "actual_stage", .str, some (.str [])⟩,
    ⟨lit "step_count", .int, some (.int 0)⟩, ⟨lit "error_note", .str, some (.str [])⟩]

/-- A dataclass instance, as its `asdict`: every field in its order, with a value of its type. -/
structure Instance (specs : List FieldSpec) where
  items : Items
  conforms : List.Forall₂ (fun f p => p.1 = .str f.name ∧ f.type.admits p.2 = true) specs items

abbrev Prediction := Instance predictionFields

abbrev Outcome := Instance outcomeFields

/-- `x.name`, of an instance that may have been read from a file: there no type is checked. -/
def attr (x : Items) (name : String) : PyVal := (getItem x (lit name)).getD .none

/-- `Class(**fields)`; `none` is the `TypeError` of a field that is missing. -/
def construct (specs : List FieldSpec) (fields : Items) : Option Items :=
  specs.mapM fun f => ((getItem fields f.name).or f.default).map fun v => (.str f.name, v)

/-- `{k: v for k, v in r.items() if k in Class.__dataclass_fields__}` -/
def knownFields (specs : List FieldSpec) (r : Items) : Items :=
  r.filter fun p => p.1 ∈ specs.map fun f => PyKey.str f.name

/-! ## Reading the file -/

/-- What the store asks of the language: `==`, the operators on numbers, and the text of `h[:12]`.
-/
structure CalibrationLib where
  eq : PyVal → PyVal → Bool
  eq_str : ∀ s t, eq (.str s) (.str t) = decide (s = t)
  add : PyVal → PyVal → Except PyError PyVal
  sub : PyVal → PyVal → Except PyError PyVal
  div : PyVal → PyVal → Except PyError PyVal
  abs : PyVal → Except PyError PyVal
  square : PyVal → Except PyError PyVal
  positive : PyVal → Except PyError Bool
  head12 : PyVal → Except PyError Str

/-- `json.loads` of the lines that are neither blank nor broken. -/
def parsedLines (lines : List Str) : List PyVal :=
  lines.filterMap fun line =>
    let line := strip line
    if line = [] then none else (loads line).toOption

/-- `_raw_records` -/
def rawRecords : Option Bytes → Except PyError (List PyVal)
  | none => .ok []
  | some data =>
    match decode data with
    | none => .error unicodeDecodeError
    | some text => .ok (parsedLines (fileLines (universalNewlines text)))

/-- What `x.get` needs. -/
def dictOf : PyVal → Except PyError Items
  | .dict items => .ok items
  | _ => .error .attributeError

/-- `record.get("_hash", "")` -/
def hashOf (record : Items) : PyVal := (getItem record (lit "_hash")).getD (.str [])

/-- `_read_chain`: the `_prev_hash` of a store that is opened now. -/
def readChain (file : Option Bytes) : Except PyError PyVal := do
  let records ← rawRecords file
  match records.getLast? with
  | none => .ok (.str [])
  | some record => do
    let items ← dictOf record
    .ok (hashOf items)

/-- The body of `_read_records`, for one record. -/
def readRecord (raw : PyVal) : Except PyError Items := do
  let items ← dictOf raw
  let fields ← dictOf ((getItem items (lit "_fields")).getD raw)
  let type := (getItem items (lit "type")).getD ((getItem fields (lit "type")).getD (.str []))
  .ok (dictInsert (lit "_hash") (hashOf items) (dictInsert (lit "type") type fields))

/-- `_read_records` -/
def readRecords (file : Option Bytes) : Except PyError (List Items) := do
  let raws ← rawRecords file
  raws.mapM readRecord

/-- `r.get("type") == text` -/
def hasType (text : String) (r : Items) : Bool :=
  isText ((getItem r (lit "type")).getD .none) (lit text)

/-- `outcomes` -/
def outcomes (file : Option Bytes) : Except PyError (List Items) := do
  let records ← readRecords file
  .ok ((records.filter (hasType "OUTCOME")).filterMap fun r =>
    construct outcomeFields (knownFields outcomeFields r))

/-- A value that can go into a set. -/
def isHashable : PyVal → Bool
  | .list _ | .dict _ => false
  | _ => true

/-- `object.__setattr__(pred, "calibration_status", "matched")` -/
def setMatched (pred : Items) : Items :=
  dictInsert (lit "calibration_status") (.str (lit "matched")) pred

section

variable (lib : CalibrationLib)

/-- `predictions`. An id that is not hashable raises out of the set, or drops the prediction. -/
def predictions (file : Option Bytes) : Except PyError (List Items) := do
  let outs ← outcomes file
  raiseIf (outs.any (fun o => !isHashable (attr o "prediction_id"))) .typeError
  let records ← readRecords file
  .ok ((records.filter (hasType "PREDICTION")).filterMap fun r =>
    (construct predictionFields (knownFields predictionFields r)).bind fun pred =>
      if !isHashable (attr pred "prediction_id") then none
      else if outs.any (fun o => lib.eq (attr o "prediction_id") (attr pred "prediction_id")) then
        some (setMatched pred)
      else some pred)

/-! ## Pairs -/

structure CalibrationPair where
  prediction : Items
  outcome : Items
  domain : PyVal
  durationErrorDays : PyVal
  durationMape : PyVal
  failureBrier : PyVal
  milestoneBrier : PyVal

/-- `1.0 if c else 0.0` -/
def indicator (c : Bool) : PyVal := .float (if c then ofDecimal false 1 0 else .zero false)

/-- `bool(pred.domain) and pred.domain == out.domain` -/
def sameDomain (pred out : Items) : Bool :=
  truthy (attr pred "domain") && lib.eq (attr pred "domain") (attr out "domain")

/-- The loop over the milestones of the prediction. -/
def milestoneSum (out : Items) (acc : PyVal) : Items → Except PyError PyVal
  | [] => .ok acc
  | (name, prob) :: milestones => do
    let observed ← dictOf (attr out "milestone_outcomes")
    let actual :=
      indicator (truthy (((observed.find? fun p => p.1 = name).map Prod.snd).getD (.bool false)))
    let d ← lib.sub prob actual
    let acc ← lib.add acc (← lib.square d)
    milestoneSum out acc milestones

/-- `_compute_pair` -/
def computePair (pred out : Items) : Except PyError CalibrationPair := do
  let actual := attr out "actual_duration_days"
  let durError ← lib.sub actual (attr pred "predicted_p50_days")
  let durMape ← (do
    if ← lib.positive actual then
      let d ← lib.abs durError
      lib.div d actual
    else .ok (indicator false))
  let failed ← lib.positive (attr out "failures_encountered")
  let d ← lib.sub (attr pred "predicted_failure_probability") (indicator failed)
  let failureBrier ← lib.square d
  let milestones ← dictOf (attr pred "milestone_predictions")
  let sum ← milestoneSum lib out (indicator false) milestones
  let milestoneBrier ← if milestones = [] then .ok sum else lib.div sum (.int milestones.length)
  .ok ⟨pred, out, attr pred "domain", durError, durMape, failureBrier, milestoneBrier⟩

/-- `preds[id]`: of several predictions with the id, the last one. -/
def lastWith (preds : List Items) (id : PyVal) : Option Items :=
  preds.reverse.find? fun p => lib.eq (attr p "prediction_id") id

/-- The loop of `pairs`. -/
def pairLoop (preds : List Items) (domain : Option Str) : List Items →
    Except PyError (List CalibrationPair)
  | [] => .ok []
  | o :: outs =>
    match lastWith lib preds (attr o "prediction_id") with
    | none => pairLoop preds domain outs
    | some p =>
      if !sameDomain lib p o then pairLoop preds domain outs
      else if domain.any (fun d => !lib.eq (attr p "domain") (.str d))
        then pairLoop preds domain outs
      else do
        let pair ← computePair lib p o
        let pairs ← pairLoop preds domain outs
        .ok (pair :: pairs)

/-- `pairs` -/
def pairs (file : Option Bytes) (domain : Option Str) : Except PyError (List CalibrationPair) := do
  let preds ← predictions lib file
  let outs ← outcomes file
  raiseIf (outs.any (fun o => !isHashable (attr o "prediction_id"))) .typeError
  pairLoop lib preds domain outs

/-! ## The chain -/

variable (P : Platform)

def fieldsJson (fields : PyVal) : Except PyError Str := dumps P.keySort true lineStyle fields

/-- `_compute_hash`. Only texts add up. -/
def computeHash (fieldsJson : Str) (prevHash : PyVal) : Except PyError Str :=
  match prevHash with
  | .str prev => do
    let data ← encodeE (prev ++ fieldsJson)
    .ok ((P.hexdigest data).take 40)
  | _ => .error .typeError

def keyError (key : Str) : PyError := .raised (lit "KeyError") key

/-- The text of `h[:12]`. -/
def shownHash : PyVal → Except PyError Str
  | .str s => .ok (s.take 12)
  | v => lib.head12 v

/-- The loop of `verify_chain`, from record `i` on; `prev` is the hash of the record before. -/
def verifyRecords (i : Nat) (prev : PyVal) : List PyVal → Except PyError (Bool × Str)
  | [] => .ok (true, lit "chain intact")
  | raw :: raws => do
    let record ← dictOf raw
    let h := hashOf record
    let fields ← match getItem record (lit "_fields") with
      | some fields => .ok fields
      | none => .error (keyError (lit "_fields"))
    let json ← fieldsJson P fields
    let expected ← computeHash P json prev
    if truthy h && !isText h expected then
      let shown ← shownHash lib h
      .ok (false, lit "hash mismatch at record " ++ (intLit i).text ++ lit ": expected " ++
        expected.take 12 ++ lit ", got " ++ shown)
    else verifyRecords (i + 1) h raws

/-- `verify_chain` -/
def verifyChain (file : Option Bytes) : Except PyError (Bool × Str) := do
  let records ← rawRecords file
  if records = [] then .ok (true, lit "empty chain")
  else verifyRecords lib P 0 (.str []) records

/-! ## Writing -/

/-- `_serialize` -/
def serialize (recordType : Str) (fields : Items) (h : Str) : Items :=
  [(.str (lit "type"), .str recordType), (.str (lit "_fields"), .dict fields),
    (.str (lit "_hash"), .str h)]

/-- `_append_and_hash`, of a record whose hash is still empty: the file and the `_prev_hash` after
it. -/
def appendAndHash (prevHash : PyVal) (file : Option Bytes) (recordType : Str) (fields : Items) :
    Except PyError (Bytes × PyVal) := do
  let json ← fieldsJson P (.dict fields)
  let h ← computeHash P json prevHash
  let text ← dumps P.keySort false lineStyle (.dict (serialize recordType fields h))
  let line ← encodeE (text ++ [10])
  .ok (file.getD [] ++ line, .str h)

/-- `record_prediction` -/
def recordPrediction (prevHash : PyVal) (file : Option Bytes) (prediction : Prediction) :
    Except PyError (Bytes × PyVal) :=
  appendAndHash P prevHash file (lit "PREDICTION") prediction.items

/-- `record_outcome` -/
def recordOutcome (prevHash : PyVal) (file : Option Bytes) (outcome : Outcome) :
    Except PyError (Bytes × PyVal) :=
  appendAndHash P prevHash file (lit "OUTCOME") outcome.items

end

end Plei.Calibration
