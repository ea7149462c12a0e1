import Msb.Infra.Lines
import Msb.Ledger.ChainAnchor

/-!
# The off-box notary

`notary.py`: a local log of signed chain tips, one JSON line for each, and a remote directory that
holds every line as an object of its own. `notarize` appends a line and pushes it, together with the
older lines that the remote lacks; `verify` reads the remote and compares it with the local log.

What the file system, `rclone` and the timestamp authority do in a call is in the call
(`SinkCall`, `LocalWrite`, `StampCall`).

* `NotaryService.notarize`, `NotaryService.verify` — the two operations
-/

namespace Ledger

open Py

/-! ## Object names -/

/-- The decimal digits of Unicode, as `\d` and `int` know them: one that is ASCII is one of `0` to
`9`. -/
structure DigitTable where
  value : CodePoint → Option Nat
  ascii : ∀ c : CodePoint, c.val < 128 → value c = digit? c

/-- The digits of ASCII alone. -/
def DigitTable.asciiOnly : DigitTable := ⟨digit?, fun _ _ => rfl⟩

/-- `[0-9T:.+Z-]` -/
def isStampChar (c : CodePoint) : Bool :=
  (48 ≤ c.val ∧ c.val ≤ 57) ∨ c = 84 ∨ c = 58 ∨ c = 46 ∨ c = 43 ∨ c = 90 ∨ c = 45

/-- `ENTRY_NAME_RE.match(name)`, and the number it captures. `$` also matches before a newline at
the very end. -/
def entryNameSeq (D : DigitTable) (name : Str) : Option Nat :=
  let name := if name.getLast? = some 10 then name.dropLast else name
  let rest := name.drop 6
  let stamp := (rest.drop 1).take (rest.length - 6)
  match (name.take 6).mapM D.value with
  | some ds =>
    if ds.length = 6 ∧ rest.head? = some 45 ∧ stamp ≠ [] ∧ stamp.all isStampChar ∧
        rest.drop (rest.length - 5) = lit ".line" then some (digitsVal ds)
    else none
  | none => none

/-- `f"{seq:06d}-{notarized_at.replace(':', '').replace('+00:00', 'Z')}.line"` -/
def entryName (seq : Nat) (notarizedAt : Str) : Str :=
  zeroPad 6 seq ++ lit "-" ++ replace (lit "+00:00") (lit "Z") (replace (lit ":") [] notarizedAt) ++
    lit ".line"

/-! ## Sinks -/

def notaryError (message : Str) : PyError := .raised (lit "NotaryError") message

def notaryRemoteError (message : Str) : PyError := .raised (lit "NotaryRemoteError") message

def notaryDiverged (message : Str) : PyError := .raised (lit "NotaryDiverged") message

/-- How an `rclone` command ends: with an exit code and what it has printed. `notRun` is a missing
program or a timeout. -/
inductive CommandEnding where
  | exited (returncode : Int) (output : Str)
  | notRun (message : Str)
  | raised (e : PyError)
  deriving DecidableEq

/-- How one operation of a sink goes: a file operation of a `LocalDirSink`, or a command of an
`RcloneSink`. -/
inductive SinkCall where
  | file (result : Except PyError Unit)
  | command (ending : CommandEnding)

/-- The operation ends as one that was carried out. -/
def SinkCall.Works : SinkCall → Prop
  | .file result => result = .ok ()
  | .command ending => ∃ output, ending = .exited 0 output

/-- The listing command exits with an error. -/
def SinkCall.ExitsNonzero : SinkCall → Prop
  | .file _ => False
  | .command ending => ∃ returncode output, ending = .exited returncode output ∧ returncode ≠ 0

/-- The objects of the remote, by name. -/
abbrev Remote := List (Str × Bytes)

/-- The object of the name is replaced, or a new one is added. -/
def Remote.put (remote : Remote) (name : Str) (data : Bytes) : Remote :=
  if remote.any fun p => p.1 = name then
    remote.map fun p => if p.1 = name then (name, data) else p
  else remote ++ [(name, data)]

def Remote.get (remote : Remote) (name : Str) : Option Bytes :=
  (remote.find? fun p => p.1 = name).map Prod.snd

/-- `sorted(names)`, of the names that match. -/
def entryNames (D : DigitTable) (names : List Str) : List Str :=
  (names.filter fun name => (entryNameSeq D name).isSome).insertionSort (· ≤ ·)

/-- How a push goes: `copyto` is what the command makes of the remote, which is up to `rclone`. -/
inductive PushCall where
  | file (result : Except PyError Unit)
  | command (ending : CommandEnding) (copyto : Str → Bytes → Remote → Remote)

/-- `sink.list()`. The names are those that the command prints, and a listing command that exits
with an error lists nothing. -/
def listSink (D : DigitTable) (call : SinkCall) (remote : Remote) : Except PyError (List Str) :=
  match call with
  | .file (.ok ()) => .ok (entryNames D (remote.map Prod.fst))
  | .file (.error e) => .error e
  | .command (.exited returncode output) =>
    if returncode ≠ 0 then .ok [] else .ok (entryNames D ((splitlines output).map strip))
  | .command (.notRun message) =>
    .error (notaryRemoteError (lit "rclone failed to run " ++ message))
  | .command (.raised e) => .error e

/-- `sink.append(name, data)` -/
def appendSink (call : PushCall) (name : Str) (data : Bytes) (remote : Remote) :
    Except PyError Unit × Remote :=
  match call with
  | .file (.ok ()) => (.ok (), remote.put name data)
  | .file (.error e) => (.error e, remote)
  | .command ending copyto =>
    let result :=
      match ending with
      | .exited returncode output =>
        if returncode ≠ 0 then .error (notaryRemoteError
          (lit "remote push FAILED for " ++ name ++ lit ": " ++ output))
        else .ok ()
      | .notRun message => .error (notaryRemoteError (lit "rclone failed to run " ++ message))
      | .raised e => .error e
    (result, copyto name data remote)

def unicodeDecodeError : PyError := .raised (lit "UnicodeDecodeError") []

/-- `sink.read(name)`. A command prints the object as text. -/
def readSink (call : SinkCall) (name : Str) (remote : Remote) : Except PyError (Option Bytes) :=
  match call with
  | .file (.ok ()) => .ok (remote.get name)
  | .file (.error e) => .error e
  | .command (.exited returncode output) =>
    if returncode ≠ 0 then .ok none else (encodeE output).map some
  | .command (.notRun message) =>
    .error (notaryRemoteError (lit "rclone failed to run " ++ message))
  | .command (.raised e) => .error e

/-- `sink.stat(name)`, for an object with the modification time `modtime`. -/
def statSink (call : SinkCall) (modtime : Option Str) : Except PyError (Option Str) :=
  match call with
  | .file (.ok ()) => .ok modtime
  | .file (.error e) => .error e
  | .command (.exited returncode _) => .ok (if returncode ≠ 0 then none else modtime)
  | .command (.notRun message) =>
    .error (notaryRemoteError (lit "rclone failed to run " ++ message))
  | .command (.raised e) => .error e

/-! ## Entries -/

/-- A text that was decoded, so that no lone surrogates stand in it as a pair. -/
abbrev DecodedText := { s : Str // Unpaired s }

/-- What a timestamper returns: the proof, with what it keeps as evidence. -/
structure StampProof extends TimestampProof where
  tsaUrl : Option Str
  receivedAt : Option Str
  tokenB64 : Option Str
  note : Str

def optStr : Option Str → PyVal
  | none => .none
  | some s => .str s

/-- `TimestampProof.to_dict` -/
def StampProof.dict (p : StampProof) : PyVal :=
  .dict [(.str (lit "source"), .str p.source), (.str (lit "digest_sha256"), .str p.digestSha256),
    (.str (lit "tsa_url"), optStr p.tsaUrl), (.str (lit "gen_time"), optStr p.genTime),
    (.str (lit "received_at"), optStr p.receivedAt), (.str (lit "token_b64"), optStr p.tokenB64),
    (.str (lit "verified"), .bool p.verified), (.str (lit "note"), .str p.note)]

/-- How stamping goes: there is no timestamper, it raises, it takes the time of the machine, or the
authority grants a token. -/
inductive StampCall where
  | off
  | unavailable (e : PyError)
  | received (receivedAt : UtcTime) (note : DecodedText)
  | granted (tsaUrl : DecodedText) (genTime receivedAt : UtcTime) (tokenB64 note : DecodedText)

/-- `timestamper.stamp(content)`: a proof is always over the digest of the content, and a token that
is not verified is never returned. -/
def StampCall.stamp (P : Platform) (content : Bytes) : StampCall →
    Except PyError (Option StampProof)
  | .off => .ok none
  | .unavailable e => .error e
  | .received receivedAt note =>
    .ok (some ⟨⟨P.hexdigest content, lit "receive_time", false, none⟩, none,
      some receivedAt.isoformat, none, note.val⟩)
  | .granted tsaUrl genTime receivedAt tokenB64 note =>
    .ok (some ⟨⟨P.hexdigest content, lit "rfc3161", true, some genTime.isoformat⟩, some tsaUrl.val,
      some receivedAt.isoformat, some tokenB64.val, note.val⟩)

/-- An entry with its proof, as it is written to the log. -/
def entryDict (e : NotaryEntry) (proof : Option StampProof) : PyVal :=
  .dict ([(.str (lit "notarized_at"), .str e.notarizedAt), (.str (lit "anchor"), e.anchor.dict)] ++
    (proof.map fun p => (PyKey.str (lit "timestamp"), p.dict)).toList)

/-- `bool(v)` -/
def truthy : PyVal → Bool
  | .none => false
  | .bool b => b
  | .int i => i ≠ 0
  | .float (.finite x) => x.abs ≠ 0
  | .float _ => true
  | .str s => s ≠ []
  | .list xs | .tuple xs => !xs.isEmpty
  | .dict items => !items.isEmpty

/-- `items.get(key)` -/
def getItem (items : List (PyKey × PyVal)) (key : Str) : Option PyVal :=
  (items.find? fun p => p.1 = .str key).map Prod.snd

theorem getItem_mem {items : List (PyKey × PyVal)} {key : Str} {v : PyVal}
    (h : getItem items key = some v) : (.str key, v) ∈ items := by
  unfold getItem at h
  obtain ⟨q, hq, rfl⟩ := Option.map_eq_some_iff.mp h
  have hkey : q.1 = .str key := by simpa using List.find?_some hq
  rw [← hkey]
  exact List.mem_of_find?_eq_some hq

/-- `v == s` -/
def isText (v : PyVal) (s : Str) : Bool :=
  match v with
  | .str t => t = s
  | _ => false

theorem isText_iff {v : PyVal} {s : Str} : isText v s = true ↔ v = .str s := by
  unfold isText
  cases v <;> simp

/-- `bytes.fromhex(v) if isinstance(v, str) else b""` -/
def hexField : Option PyVal → Except PyError Bytes
  | some (.str s) => fromHexE s
  | _ => .ok []

/-- `anchor.get("key_algorithm", ED25519)`; what is no text is no algorithm. -/
def algorithmField : Option PyVal → KeyAlgorithm
  | none => .ed25519
  | some v =>
    if isText v KeyAlgorithm.ed25519.text then .ed25519
    else if isText v KeyAlgorithm.secp256r1.text then .secp256r1
    else if isText v KeyAlgorithm.secp384r1.text then .secp384r1
    else .other []

/-- What `verify_notary_entry` returns for a value of any shape. -/
inductive EntryVerdict where
  | noSnapshot
  | unregistered
  | badSignature
  | tipMissing (notarizedTip : PyVal) (notarizedAt : Option PyVal)
  | timestampElsewhere
  | timestampUnverified
  | valid (tipHash : PyVal) (recordCount : Option PyVal) (timestamp : Option (PyVal × Option PyVal))

namespace EntryVerdict

def isValid : EntryVerdict → Bool
  | .valid .. => true
  | _ => false

/-- `check.get("reason")` -/
def reason : EntryVerdict → Option Str
  | .noSnapshot => some (lit "notary entry has no anchor snapshot")
  | .unregistered => some (lit "notary entry signed by a key that is not registered " ++
      lit "(current, recovery, or successor)")
  | .badSignature => some (lit "notary entry signature invalid — notary log tampered")
  | .tipMissing .. =>
    some (lit "notarized tip is not in the live chain — whole-DB rollback or replacement (T7)")
  | .timestampElsewhere => some (lit "timestamp proof does not cover this entry")
  | .timestampUnverified => some (lit "RFC 3161 timestamp proof was not verified")
  | .valid .. => none

end EntryVerdict

section

variable (P : Platform) (C : Crypto)

/-- The last part of `verify_notary_entry`: the proof of the time. -/
def checkStamp (items : List (PyKey × PyVal)) (tip : PyVal) (recordCount : Option PyVal) :
    Except PyError EntryVerdict :=
  match getItem items (lit "timestamp") with
  | some (.dict ts) =>
    match (getItem ts (lit "digest_sha256")).filter truthy with
    | none => .ok (.valid tip recordCount none)
    | some digest =>
      match getItem ts (lit "source") with
      | none => .error .typeError
      | some source => do
        let stamped ← canonicalBytes P (.dict (items.filter fun p => p.1 ≠ .str (lit "timestamp")))
        if !isText digest (P.hexdigest stamped) then .ok .timestampElsewhere
        else if isText source (lit "rfc3161") ∧
            !truthy ((getItem ts (lit "verified")).getD (.bool false)) then .ok .timestampUnverified
        else .ok (.valid tip recordCount (some (source, getItem ts (lit "gen_time"))))
  | _ => .ok (.valid tip recordCount none)

/-- `verify_notary_entry` from the snapshot on: the key, the signature, the tip, the time. -/
def ChainAnchor.checkEntry (self : ChainAnchor) (items anchor : List (PyKey × PyVal))
    (snapshot : PyVal) (chain : Chain) (store : AnchorStore) : Except PyError EntryVerdict := do
  let signature ← hexField (getItem anchor (lit "signature"))
  let pub ← hexField (getItem anchor (lit "public_key"))
  let reg ← self.readRegistry store
  if !reg.isRegistered pub then .ok .unregistered
  else do
    let canonical ← canonicalBytes P snapshot
    let algorithm := algorithmField (getItem anchor (lit "key_algorithm"))
    let sigValid :=
      match verifySignature C canonical signature pub algorithm with
      | .ok holds => holds
      | .error _ => false
    if !sigValid then .ok .badSignature
    else do
      let tip := (← pyGet snapshot (lit "tip_hash")).getD (.str [])
      let records ← chain.getChain
      if !records.any fun r => isText tip r.recordHash then
        .ok (.tipMissing tip (getItem items (lit "notarized_at")))
      else checkStamp P items tip (← pyGet snapshot (lit "record_count"))

/-- `verify_notary_entry`, on whatever value was read. -/
def ChainAnchor.verifyEntry (self : ChainAnchor) (entry : PyVal) (chain : Chain)
    (store : AnchorStore) : Except PyError EntryVerdict :=
  match entry with
  | .dict items =>
    match getItem items (lit "anchor") with
    | some (.dict anchor) =>
      match getItem anchor (lit "snapshot") with
      | some snapshot => self.checkEntry P C items anchor snapshot chain store
      | none => .ok .noSnapshot
    | _ => .ok .noSnapshot
  | _ => .error .attributeError

end

/-! ## The local log -/

/-- The entries of the lines from line `n + 1` on. -/
def parseLines (n : Nat) : List Str → Except PyError (List PyVal)
  | [] => .ok []
  | line :: lines =>
    match loads line with
    | .error _ =>
      .error (notaryError
        (lit "local notary log corrupted at line " ++ (intLit (n + 1 : Nat)).text))
    | .ok v => (parseLines (n + 1) lines).map (v :: ·)

/-- `_read_local_entries`; `none` is a log that does not exist. -/
def readLocalEntries (log : Option Bytes) : Except PyError (List PyVal) :=
  match log with
  | none => .ok []
  | some data =>
    match decode data with
    | none => .error unicodeDecodeError
    | some text => parseLines 0 ((splitlines text).filter fun line => strip line ≠ [])

/-- How the write to the local log goes. A torn write leaves the first `kept + 1` bytes. -/
inductive LocalWrite where
  | done
  | notOpened (e : PyError)
  | torn (kept : Nat) (e : PyError)

/-- `_append_local` -/
def appendLocal (write : LocalWrite) (line : Bytes) (log : Option Bytes) :
    Except PyError Unit × Option Bytes :=
  match write with
  | .done => (.ok (), some (log.getD [] ++ line))
  | .notOpened e => (.error e, log)
  | .torn kept e => (.error e, some (log.getD [] ++ line.take (kept + 1)))

/-! ## The service -/

structure NotaryService where
  anchor : ChainAnchor
  /-- Whether a remote sink is configured. -/
  remote : Bool

/-- What the service writes to. -/
structure NotaryFiles where
  store : AnchorStore
  localLog : Option Bytes
  objects : Remote

/-- What happens around one call of `notarize`: the clock, and how its operations go. -/
structure NotarizeCall where
  now : UtcTime
  listing : SinkCall
  stamp : StampCall
  write : LocalWrite
  push : Nat → PushCall

/-- What `notarize` returns. -/
structure NotarizeResult where
  ok : Bool
  seq : Nat
  tipHash : Str
  notarizedAt : Str
  remotePushOk : Option Bool
  remoteEntry : Option Str
  remoteError : Option Str
  backfilled : List Nat
  backfillErrors : List Nat
  timestamp : Option StampProof

section

variable (P : Platform) (C : Crypto) (D : DigitTable)

/-- `_remote_seqs`, of a service with a remote. -/
def remoteSeqs (call : SinkCall) (objects : Remote) : Except PyError (List Nat) :=
  match listSink D call objects with
  | .ok names => .ok (names.filterMap (entryNameSeq D))
  | .error (.raised name message) =>
    if name = lit "NotaryRemoteError" then
      .error (notaryDiverged (lit "cannot check remote before notarizing: " ++ message))
    else .error (.raised name message)
  | .error e => .error e

/-- `except NotaryRemoteError`: the message, where it was one. -/
def remoteErrorOf : PyError → Option Str
  | .raised name message => if name = lit "NotaryRemoteError" then some message else none
  | _ => none

/-- The line that the backfill pushes for an old entry, and its name. -/
def oldObject (s : Nat) (old : PyVal) : Except PyError (Str × Bytes) := do
  let line ← dumps P.keySort true compactStyle old
  match old with
  | .dict items =>
    match getItem items (lit "notarized_at") with
    | some (.str at_) => do
      let data ← encodeE (line ++ [10])
      .ok (entryName s at_, data)
    | some _ => .error .attributeError
    | none => .error (.raised (lit "KeyError") (lit "'notarized_at'"))
  | _ => .error .typeError

/-- The backfill: every missing entry is pushed in turn. It returns what was pushed and what the
remote refused. -/
def backfill (push : Nat → PushCall) (entries : List PyVal) :
    List Nat → Remote → Except PyError (List Nat × List Nat) × Remote
  | [], objects => (.ok ([], []), objects)
  | s :: missing, objects =>
    match oldObject P s (entries.getD (s - 1) .none) with
    | .error e => (.error e, objects)
    | .ok (name, data) =>
      match appendSink (push s) name data objects with
      | (.ok (), objects) =>
        let (rest, objects) := backfill push entries missing objects
        (rest.map fun p => (s :: p.1, p.2), objects)
      | (.error e, objects) =>
        if (remoteErrorOf e).isSome then
          let (rest, objects) := backfill push entries missing objects
          (rest.map fun p => (p.1, s :: p.2), objects)
        else (.error e, objects)

/-- The numbers below `seq` that the remote lacks. -/
def missingSeqs (seq : Nat) (seqs : List Nat) : List Nat :=
  (List.range' 1 (seq - 1)).filter fun s => !seqs.contains s

/-- `notarize` once the line is in the local log: the push of the line, then the backfill. -/
def pushAndBackfill (call : NotarizeCall) (entries : List PyVal) (seqs : List Nat)
    (result : NotarizeResult) (line : Bytes) (objects : Remote) :
    Except PyError NotarizeResult × Remote :=
  let name := entryName result.seq result.notarizedAt
  let pushed := appendSink (call.push result.seq) name line objects
  let result? : Except PyError NotarizeResult :=
    match pushed.1 with
    | .ok () => .ok { result with remotePushOk := some true, remoteEntry := some name }
    | .error e =>
      match remoteErrorOf e with
      | some message =>
        .ok { result with ok := false, remotePushOk := some false, remoteError := some message }
      | none => .error e
  match result? with
  | .error e => (.error e, pushed.2)
  | .ok result =>
    let (filled, objects) := backfill P call.push entries (missingSeqs result.seq seqs) pushed.2
    (filled.map fun p => { result with
      ok := result.ok && p.2.isEmpty
      backfilled := p.1
      backfillErrors := p.2 }, objects)

/-- The line of a new entry, and its proof. -/
def stampEntry (call : NotarizeCall) (entry : NotaryEntry) :
    Except PyError (Bytes × Option StampProof) := do
  let canonical ← canonicalBytes P entry.stampedDict
  let proof ← call.stamp.stamp P canonical
  let line ← dumps P.keySort true compactStyle (entryDict entry proof)
  let data ← encodeE (line ++ [10])
  .ok (data, proof)

/-- The checks of `notarize` before it makes an entry: the entries of the local log, and the numbers
of the remote. -/
def NotaryService.guard (self : NotaryService) (call : NotarizeCall) (files : NotaryFiles) :
    Except PyError (List PyVal × List Nat) :=
  match readLocalEntries files.localLog with
  | .error (.raised name message) =>
    if name = lit "NotaryError" then
      .error (notaryError (lit "cannot notarize into a corrupt local log: " ++ message))
    else .error (.raised name message)
  | .error e => .error e
  | .ok entries =>
    if self.remote then do
      let seqs ← remoteSeqs D call.listing files.objects
      if seqs.any fun s => entries.length < s then
        .error (notaryDiverged (lit "remote notary knows entries (max seq " ++
          (intLit (seqs.foldl max 0 : Nat)).text ++ lit ") the local log (" ++
          (intLit (entries.length : Nat)).text ++
            lit " entries) lacks — local rollback detected; " ++
          lit "reconcile before notarizing"))
      else .ok (entries, seqs)
    else .ok (entries, [])

/-- `NotaryService.notarize` -/
def NotaryService.notarize (self : NotaryService) (chain : Chain) (call : NotarizeCall)
    (files : NotaryFiles) : Except PyError NotarizeResult × NotaryFiles :=
  match self.guard D call files with
  | .error e => (.error e, files)
  | .ok (entries, seqs) =>
    match self.anchor.buildNotaryEntry P chain call.now.isoformat files.store with
    | (.error e, store) => (.error e, { files with store := store })
    | (.ok entry, store) =>
      let files := { files with store := store }
      match stampEntry P call entry with
      | .error e => (.error e, files)
      | .ok (line, proof) =>
        match appendLocal call.write line files.localLog with
        | (.error e, log) => (.error e, { files with localLog := log })
        | (.ok (), log) =>
          let files := { files with localLog := log }
          let result : NotarizeResult := ⟨true, entries.length + 1, entry.anchor.snapshot.tipHash,
            entry.notarizedAt, none, none, none, [], [], proof⟩
          if self.remote then
            let (result, objects) := pushAndBackfill P call entries seqs result line files.objects
            (result, { files with objects := objects })
          else (.ok result, files)

/-! ## Verification -/

/-- What `verify` returns. -/
inductive NotaryHealth where
  | localCorrupt (message : Str)
  | localEmpty
  | localHead (entries : Nat) (head : EntryVerdict)
  | localOnly (entries : Nat) (head : EntryVerdict)
  | remoteUnreachable (message : Str)
  | remoteEmpty
  | remoteInvalid (invalid : List Str)
  | diverged (extra : List Nat)
  | remoteBehind (missing : List Nat)
  | healthy (entries : Nat) (head : EntryVerdict) (remoteHead : Str) (receivedAt : Option Str)

namespace NotaryHealth

/-- `result["verdict"]` -/
def verdict : NotaryHealth → Str
  | .localCorrupt _ | .localEmpty | .localHead _ _ => lit "LOCAL_INVALID"
  | .localOnly _ _ => lit "LOCAL_ONLY"
  | .remoteUnreachable _ | .remoteEmpty => lit "REMOTE_UNREACHABLE"
  | .remoteInvalid _ => lit "REMOTE_INVALID"
  | .diverged _ => lit "DIVERGED"
  | .remoteBehind _ => lit "REMOTE_BEHIND"
  | .healthy .. => lit "HEALTHY"

end NotaryHealth

/-- How the operations of one `verify` go. -/
structure VerifyCall where
  listing : SinkCall
  read : Str → SinkCall
  stat : SinkCall
  modtime : Option Str

/-- `remote_seqs[s] = name`, in a dict that is kept in the order of its keys. -/
def indexInsert (s : Nat) (name : Str) : List (Nat × Str) → List (Nat × Str)
  | [] => [(s, name)]
  | (t, other) :: index =>
    if s < t then (s, name) :: (t, other) :: index
    else if s = t then (s, name) :: index
    else (t, other) :: indexInsert s name index

/-- `remote_seqs` of `verify`: of the names with one number, the last one is kept. -/
def remoteIndex (names : List Str) : List (Nat × Str) :=
  names.foldl (fun index name =>
    match entryNameSeq D name with
    | some s => indexInsert s name index
    | none => index) []

/-- What is wrong with one remote object. -/
def NotaryService.checkObject (self : NotaryService) (chain : Chain) (call : VerifyCall)
    (files : NotaryFiles) (name : Str) : Except PyError (Option Str) := do
  match ← readSink (call.read name) name files.objects with
  | none => .ok (some (name ++ lit ": unreadable"))
  | some data =>
    match decode data with
    | none => .error unicodeDecodeError
    | some text =>
      match loads text with
      | .error _ => .ok (some (name ++ lit ": not JSON"))
      | .ok entry => do
        let check ← self.anchor.verifyEntry P C entry chain files.store
        .ok (if check.isValid then none
          else some (name ++ lit ": " ++ check.reason.getD (lit "None")))

/-- The part of `verify` on the remote, once the local head is valid. -/
def NotaryService.verifyRemote (self : NotaryService) (chain : Chain) (call : VerifyCall)
    (files : NotaryFiles) (count : Nat) (head : EntryVerdict) : Except PyError NotaryHealth :=
  match listSink D call.listing files.objects with
  | .error e =>
    match remoteErrorOf e with
    | some message => .ok (.remoteUnreachable message)
    | none => .error e
  | .ok names =>
    let index := remoteIndex D names
    match index.getLast? with
    | none => .ok .remoteEmpty
    | some (_, headName) => do
      let checks ← index.mapM fun p => self.checkObject P C chain call files p.2
      let invalid := checks.filterMap id
      if !invalid.isEmpty then .ok (.remoteInvalid invalid)
      else do
        let remoteSet := index.map Prod.fst
        let missing := (List.range' 1 count).filter fun s => !remoteSet.contains s
        let extra := remoteSet.filter fun s => !(List.range' 1 count).contains s
        let receivedAt ← statSink call.stat call.modtime
        if !extra.isEmpty then .ok (.diverged extra)
        else if !missing.isEmpty then .ok (.remoteBehind missing)
        else .ok (.healthy count head headName receivedAt)

/-- `NotaryService.verify` -/
def NotaryService.verify (self : NotaryService) (chain : Chain) (call : VerifyCall)
    (files : NotaryFiles) : Except PyError NotaryHealth :=
  match readLocalEntries files.localLog with
  | .error (.raised name message) =>
    if name = lit "NotaryError" then .ok (.localCorrupt message) else .error (.raised name message)
  | .error e => .error e
  | .ok entries =>
    match entries.getLast? with
    | none => .ok .localEmpty
    | some last => do
      let head ← self.anchor.verifyEntry P C last chain files.store
      if !head.isValid then .ok (.localHead entries.length head)
      else if !self.remote then .ok (.localOnly entries.length head)
      else self.verifyRemote P C D chain call files entries.length head

end

end Ledger
