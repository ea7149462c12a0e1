import Msb.Ledger.AnchorClassify

/-!
# The periodic check

`_verify_daemon` of `chain_anchor.py`: check the chain and its anchor, re-sign an anchor that is
merely stale, and leave a state file for the dashboards.

* `check_cases` — a check re-signs a stale anchor of a valid chain, or leaves the anchor alone
* `verifyDaemon_launders_nothing` — a new anchor only over a chain that continues the old one
-/

namespace Ledger

open Py HashChain

/-! ## The state file -/

/-- What the state file reports; the time is in microseconds. -/
structure DaemonState where
  checkedAt : Str
  healthy : Bool
  db : Str
  internalValid : Bool
  internalReason : Option Str
  anchoredValid : Bool
  stale : Bool
  staleMicros : Int
  reason : Option Str
  recordCount : Option Nat
  autoReanchored : Bool
  deriving DecidableEq

/-- `internal.get("reason")` -/
def ChainVerdict.reason : ChainVerdict → Option Str
  | .valid _ => none
  | .broken _ reason => some reason
  | .unreadable reason => some reason

/-- `internal.get("record_count")` -/
def ChainVerdict.recordCount : ChainVerdict → Option Nat
  | .valid n => some n
  | .broken _ _ => none
  | .unreadable _ => some 0

/-- `anchored.get("record_count")` -/
def AnchorVerdict.recordCount : AnchorVerdict → Option Nat
  | .valid n _ _ _ _ => some n
  | _ => none

/-- `anchored.get("stale_seconds", 0)`, in microseconds. -/
def AnchorVerdict.staleMicros : AnchorVerdict → Int
  | .stale d .. => d
  | .valid _ _ _ d _ => d
  | _ => 0

/-! ## Files -/

/-- What the check writes, and what it finds at the place of the anchor. -/
inductive FileContent where
  | anchor (doc : AnchorDoc)
  | state (s : DaemonState)
  deriving DecidableEq

/-- The files by their path. -/
abbrev Files := Str → Option FileContent

def Files.write (files : Files) (path : Str) (content : FileContent) : Files :=
  Function.update files path (some content)

@[simp] theorem Files.write_same (files : Files) (path : Str) (content : FileContent) :
    files.write path content path = some content := Function.update_self ..

@[simp] theorem Files.write_of_ne (files : Files) {path other : Str} (content : FileContent)
    (h : other ≠ path) : files.write path content other = files other :=
  Function.update_of_ne h ..

/-- `_read_anchor`. A state file has no snapshot. -/
def readAnchor : Option FileContent → Except PyError (Option AnchorDoc)
  | none => .ok none
  | some (.anchor doc) => .ok (some doc)
  | some (.state _) => .error (.raised (lit "KeyError") (lit "'snapshot'"))

/-! ## The check -/

/-- The surroundings of a check: the database, the places of the files, the key of the environment
and the clock. -/
structure DaemonEnv where
  /-- The text of a `DatabaseError` raised where the database is opened. -/
  openError : Option Str
  chain : Chain
  anchorPath : Str
  /-- `MSB_ANCHOR_STATE_DIR / "chain_anchor.json"` -/
  statePath : Str
  registry : Option RegistryDoc
  fromEnv : Except PyError ChainAnchor
  autoAnchor : Bool
  anchoredAt : Str
  checkedAt : Str

/-- What a check leaves: its report, the files, and the anchor it signed. -/
structure DaemonOutcome where
  result : Except PyError DaemonState
  files : Files
  written : Option AnchorDoc

/-- A check that was not cut short writes its state file. -/
def DaemonOutcome.saveState (out : DaemonOutcome) (path : Str) : DaemonOutcome :=
  match out.result with
  | .error _ => out
  | .ok state => { out with files := out.files.write path (.state state) }

theorem DaemonOutcome.saveState_written (out : DaemonOutcome) (path : Str) :
    (out.saveState path).written = out.written := by
  unfold saveState
  split <;> rfl

/-- The state file does not touch a file in another place. -/
theorem DaemonOutcome.saveState_of_ne (out : DaemonOutcome) {path other : Str} (h : other ≠ path) :
    (out.saveState path).files other = out.files other := by
  unfold saveState
  split
  · rfl
  · exact Files.write_of_ne _ _ h

section

variable (P : Platform) (fromisoformat : IsoParser) (C : Crypto) (env : DaemonEnv) (files : Files)

/-- The report where the database cannot be opened. -/
def DaemonEnv.unreadableState (message : Str) : DaemonState :=
  let problem := lit "whole-DB replacement or unreadable audit store — " ++ message
  ⟨env.checkedAt, false, env.chain.dbPath, false, some problem, false, false, 0, some problem,
    some 0, false⟩

def DaemonEnv.report (internal : ChainVerdict) (anchored : AnchorVerdict) (reanchored : Bool) :
    DaemonState where
  checkedAt := env.checkedAt
  healthy := internal.isValid && anchored.isValid && !anchored.isStale
  db := env.chain.dbPath
  internalValid := internal.isValid
  internalReason := internal.reason
  anchoredValid := anchored.isValid
  stale := anchored.isStale
  staleMicros := anchored.staleMicros
  reason := anchored.reason
  recordCount := anchored.recordCount <|> internal.recordCount
  autoReanchored := reanchored

/-- The key, the verdict on the chain and the verdict on the anchor. -/
def DaemonEnv.inspect : Except PyError (ChainAnchor × AnchorStore × ChainVerdict × AnchorVerdict) :=
  do
  let anchor ← env.fromEnv
  let internal ← verifyChain P env.chain.read
  let doc ← readAnchor (files env.anchorPath)
  let anchored ← anchor.verify P fromisoformat C env.chain ⟨doc, env.registry⟩
  .ok (anchor, ⟨doc, env.registry⟩, internal, anchored)

/-- `_verify_daemon` up to the state file. -/
def DaemonEnv.check : DaemonOutcome :=
  match env.openError with
  | some message => ⟨.ok (env.unreadableState message), files, none⟩
  | none =>
    match env.inspect P fromisoformat C files with
    | .error e => ⟨.error e, files, none⟩
    | .ok (anchor, store, internal, anchored) =>
      if env.autoAnchor ∧ internal.isValid ∧ anchored.isValid = false ∧ anchored.isStale then
        match anchor.anchor P env.chain env.anchoredAt store with
        | (.error e, _) => ⟨.error e, files, none⟩
        | (.ok doc, store) =>
          let result := anchor.verify P fromisoformat C env.chain store
          ⟨result.map fun anchored => env.report internal anchored true,
            files.write env.anchorPath (.anchor doc), some doc⟩
      else ⟨.ok (env.report internal anchored false), files, none⟩

/-- `_verify_daemon` -/
def verifyDaemon : DaemonOutcome := (env.check P fromisoformat C files).saveState env.statePath

end

/-! ## What a check writes -/

section

variable {P : Platform} {fromisoformat : IsoParser} {C : Crypto} {env : DaemonEnv} {files : Files}

/-- A check has re-signed the anchor: the chain was valid, and the old anchor was stale. -/
structure Reanchored (P : Platform) (fromisoformat : IsoParser) (C : Crypto) (env : DaemonEnv)
    (files : Files) (new : AnchorDoc) : Prop where
  auto : env.autoAnchor = true
  valid : ∃ n, verifyChain P env.chain.read = .ok (.valid n)
  stale : ∃ self doc v, readAnchor (files env.anchorPath) = .ok doc ∧
    ChainAnchor.verify P fromisoformat C self env.chain ⟨doc, env.registry⟩ = .ok v ∧
    v.isValid = false ∧ v.isStale = true
  signed : ∃ backend, (ChainAnchor.signing backend).signedDoc P env.chain env.anchoredAt = .ok new

variable {store : AnchorStore} {doc : AnchorDoc}

theorem inspect_eq_ok {anchor : ChainAnchor} {internal : ChainVerdict} {anchored : AnchorVerdict} :
    env.inspect P fromisoformat C files = .ok (anchor, store, internal, anchored) ↔
      env.fromEnv = .ok anchor ∧ verifyChain P env.chain.read = .ok internal ∧
      (∃ doc, readAnchor (files env.anchorPath) = .ok doc ∧ store = ⟨doc, env.registry⟩) ∧
      anchor.verify P fromisoformat C env.chain store = .ok anchored := by
  simp only [DaemonEnv.inspect, bind_eq_ok, Except.ok.injEq, Prod.mk.injEq]
  constructor
  · rintro ⟨a, ha, i, hi, doc, hdoc, v, hv, rfl, rfl, rfl, rfl⟩
    exact ⟨ha, hi, ⟨doc, hdoc, rfl⟩, hv⟩
  · rintro ⟨ha, hi, ⟨doc, hdoc, rfl⟩, hv⟩
    exact ⟨_, ha, _, hi, doc, hdoc, _, hv, rfl, rfl, rfl, rfl⟩

/-- Only an anchor that signs writes one. -/
theorem anchor_eq_ok {self : ChainAnchor} {chain : Chain} {now : Str} {store' : AnchorStore}
    (h : self.anchor P chain now store = (.ok doc, store')) :
    (∃ backend, self = .signing backend ∧
      (ChainAnchor.signing backend).signedDoc P chain now = .ok doc) ∧
    store' = { store with anchor := some doc } := by
  unfold ChainAnchor.anchor at h
  split at h
  · cases h
  next d hd =>
  obtain ⟨hdoc, rfl⟩ := Prod.mk.inj h
  obtain rfl := Except.ok.inj hdoc
  refine ⟨?_, rfl⟩
  cases self with
  | verifyOnly k a => cases hd
  | signing backend => exact ⟨backend, rfl, hd⟩

/-- **A check re-signs a stale anchor of a valid chain, or leaves the anchor alone.** -/
theorem check_cases (out : DaemonOutcome) (h : env.check P fromisoformat C files = out) :
    (∃ new, out.written = some new ∧ Reanchored P fromisoformat C env files new ∧
      out.files = files.write env.anchorPath (.anchor new)) ∨
    (out.written = none ∧ out.files = files) := by
  unfold DaemonEnv.check at h
  split at h
  · subst h
    exact Or.inr ⟨rfl, rfl⟩
  split at h
  · subst h
    exact Or.inr ⟨rfl, rfl⟩
  next anchor store internal anchored hinspect =>
  split at h
  · next hstale =>
    obtain ⟨hauto, hinternal, hinvalid, hst⟩ := hstale
    split at h
    · subst h
      exact Or.inr ⟨rfl, rfl⟩
    next doc store' hanchor =>
    subst h
    obtain ⟨-, hchain, ⟨old, hold, rfl⟩, hverify⟩ := inspect_eq_ok.mp hinspect
    obtain ⟨⟨backend, -, hsigned⟩, -⟩ := anchor_eq_ok hanchor
    have hvalid : ∃ n, internal = .valid n := by
      cases internal with
      | valid n => exact ⟨n, rfl⟩
      | broken | unreadable => cases hinternal
    obtain ⟨n, rfl⟩ := hvalid
    exact Or.inl ⟨doc, rfl, ⟨hauto, ⟨n, hchain⟩,
      ⟨anchor, old, anchored, hold, hverify, hinvalid, hst⟩, backend, hsigned⟩, rfl⟩
  · subst h
    exact Or.inr ⟨rfl, rfl⟩

/-- The converse: a stale anchor of a valid chain is signed again, where the key can sign. -/
theorem check_written_of_stale {b : SigningBackend} (hb : b.Signs) (hopen : env.openError = none)
    (hkey : env.fromEnv = .ok (.signing b)) (hauto : env.autoAnchor = true) {rows : List AuditRow}
    (hread : env.chain.read = .ok rows) {n : Nat}
    (hvalid : verifyChain P (.ok rows) = .ok (.valid n))
    (hdoc : files env.anchorPath = some (.anchor doc)) {v : AnchorVerdict}
    (hverify : (ChainAnchor.signing b).verify P fromisoformat C env.chain
      ⟨some doc, env.registry⟩ = .ok v)
    (hv : v.isValid = false ∧ v.isStale = true) :
    ∃ new, (env.check P fromisoformat C files).written = some new := by
  obtain ⟨new, hnew⟩ := exists_signedDoc hb hread (verifyChain_valid_iff.mp hvalid).1.readable
    env.anchoredAt
  have hinspect : env.inspect P fromisoformat C files
      = .ok (.signing b, ⟨some doc, env.registry⟩, .valid n, v) :=
    inspect_eq_ok.mpr ⟨hkey, by rw [hread, hvalid], ⟨some doc, by rw [hdoc]; rfl, rfl⟩, hverify⟩
  refine ⟨new, ?_⟩
  unfold DaemonEnv.check
  simp only [hopen, hinspect]
  rw [if_pos ⟨hauto, rfl, hv⟩]
  simp only [ChainAnchor.anchor, hnew]

/-! ## What a new anchor covers -/

/-- An anchor whose tip is still a row of a longer chain is stale, whatever the rows say. -/
theorem verify_stale_of_mem {b : SigningBackend} (hb : Honest C b) {A L : List AuditRow}
    {dbPath now : Str} (hdoc : (ChainAnchor.signing b).signedDoc P ⟨dbPath, .ok A⟩ now = .ok doc)
    (hL : ∀ r ∈ L, Readable P r) (hmem : ∃ r ∈ L, r.recordHash = hashTip A)
    (hseq : lastSeq A < lastSeq L) (htimes : ComparableTimes fromisoformat L now)
    (hanchor : store.anchor = some doc) {reg : KeyRegistry}
    (hreg : (ChainAnchor.signing b).readRegistry store = .ok reg)
    (hauth : Authorized reg b.publicKey) :
    ∃ v, (ChainAnchor.signing b).verify P fromisoformat C ⟨dbPath, .ok L⟩ store = .ok v ∧
      v.isValid = false ∧ v.isStale = true := by
  have hpub : (ChainAnchor.signing b).pub = b.publicKey := rfl
  obtain ⟨signature, hsig, hkey, hpass⟩ := passesChecks_own hb hdoc hpub rfl hauth
  obtain ⟨hsnap, hnow⟩ := snapshotOf_signedDoc rfl hdoc
  obtain ⟨records, hrecords⟩ := getChain_isOk.mpr fun r hr => (hL r hr).parses
  have hread : Chain.read ⟨dbPath, .ok L⟩ = .ok L := rfl
  obtain ⟨m, hmark⟩ := exists_mark hread hL
  have hm := ((mark_eq_ok rfl).mp hmark).2
  obtain ⟨x, root, -, -, rfl⟩ := hm
  have hscan : (records.any fun r => r.recordHash = doc.snapshot.tipHash) = true := by
    rw [any_recordHash hrecords, hsnap.tipHash]
    exact hmem
  obtain ⟨d, hd⟩ := (newerThanAnchor_isOk hrecords).mpr htimes
  rw [verify_eq_compareLive hanchor hsig hkey hreg hpass,
    compareLive_stale ((getChain_of_read rfl).trans hrecords) hmark hscan
    (by rw [hsnap.seq]; exact hseq),
    hnow, hd]
  exact ⟨_, rfl, rfl, rfl⟩

/-- A stale verdict comes from a tip that is still a row of the chain. -/
theorem mem_of_compareLive_stale {chain : Chain} {rows : List AuditRow}
    (hread : chain.read = .ok rows) {snap : Snapshot} {recoverySigner : Bool} {v : AnchorVerdict}
    (h : compareLive P fromisoformat chain snap recoverySigner = .ok v)
      (hinvalid : v.isValid = false)
    (hstale : v.isStale = true) : ∃ r ∈ rows, r.recordHash = snap.tipHash := by
  unfold compareLive at h
  split at h
  · cases h
    cases hstale
  · cases h
  next live hmark =>
  split at h
  · obtain ⟨records, hrecords, h⟩ := bind_eq_ok.mp h
    simp only at h
    split at h
    · next hmem =>
      rw [getChain_of_read hread] at hrecords
      exact (any_recordHash hrecords _).mp hmem.1
    · cases h
      cases hstale
  split at h
  · cases h
    cases hstale
  split at h
  · cases h
    cases hstale
  · obtain ⟨records, -, h⟩ := bind_eq_ok.mp h
    obtain ⟨d, -, h⟩ := bind_eq_ok.mp h
    cases h
    cases hinvalid

/-- **Auto-anchoring launders nothing.** Where the anchor was taken of a valid chain, a check signs
a new one only over a chain that verifies and begins with the rows the old one covered; else the
anchor file stays as it was. -/
theorem verifyDaemon_launders_nothing (hP : CollisionFree P)
    (hpath : env.statePath ≠ env.anchorPath) {doc : AnchorDoc}
    (hdoc : files env.anchorPath = some (.anchor doc)) {A : List AuditRow} (hA : ValidRows P A)
    (hsnap : SnapshotOf P A doc.snapshot) {out : DaemonOutcome}
    (hout : verifyDaemon P fromisoformat C env files = out) :
    (∀ new, out.written = some new → out.files env.anchorPath = some (.anchor new) ∧
      ∃ rows n, env.chain.read = .ok rows ∧ verifyChain P (.ok rows) = .ok (.valid n) ∧
        List.Forall₂ SameRow A (rows.take doc.snapshot.recordCount)) ∧
    (out.written = none → out.files env.anchorPath = files env.anchorPath) := by
  subst hout
  rw [verifyDaemon, DaemonOutcome.saveState_written, DaemonOutcome.saveState_of_ne _ hpath.symm]
  rcases check_cases _ rfl with ⟨new, hwritten, hre, hfiles⟩ | ⟨hwritten, hfiles⟩
  · rw [hwritten, hfiles, Files.write_same]
    refine ⟨?_, fun h => by cases h⟩
    rintro _ ⟨⟩
    refine ⟨rfl, ?_⟩
    obtain ⟨n, hvalid⟩ := hre.valid
    obtain ⟨self, old, v, hold, hverify, hinvalid, hstale⟩ := hre.stale
    rw [hdoc, readAnchor, Except.ok.injEq] at hold
    subst hold
    cases hread : env.chain.read with
    | error message =>
      rw [hread] at hvalid
      cases hvalid
    | ok rows =>
      rw [hread] at hvalid
      refine ⟨rows, n, rfl, hvalid, ?_⟩
      obtain ⟨_, _, _, _, ⟨⟩, -, -, -, -, hlive⟩ :=
        passesChecks_of_verify hverify (Or.inr (Or.inl hstale))
      obtain ⟨r, hr, htip⟩ := mem_of_compareLive_stale hread hlive hinvalid hstale
      -- the tip of the old chain is a row of the live one: the old chain is a prefix
      rw [hsnap.tipHash] at htip
      obtain ⟨pre, post, rfl, hsame⟩ :=
        isPrefix_of_mem_tip hP hA (verifyChain_valid_iff.mp hvalid).1 hr htip
      rw [hsnap.count, hsame.length_eq, List.take_left]
      exact hsame
  · rw [hwritten, hfiles]
    exact ⟨fun new h => (by cases h), fun _ => rfl⟩

end

/-! ### Two checks -/

/-- A check of the chain `rows` with the key `[1]` and auto-anchoring on. -/
def autoEnv (rows : List AuditRow) : DaemonEnv where
  openError := none
  chain := ⟨lit "/a.db", .ok rows⟩
  anchorPath := lit "/chain_anchor.json"
  statePath := lit "/state/chain_anchor.json"
  registry := none
  fromEnv := .ok (.signing (.plain [1]))
  autoAnchor := true
  anchoredAt := []
  checkedAt := []

theorem autoEnv_paths (rows : List AuditRow) :
    (autoEnv rows).statePath ≠ (autoEnv rows).anchorPath := by
  change lit "/state/chain_anchor.json" ≠ lit "/chain_anchor.json"
  decide

/-- The anchor as the only file. -/
def anchorOnly (doc : AnchorDoc) : Files := fun path =>
  if path = lit "/chain_anchor.json" then some (.anchor doc) else none

theorem anchorOnly_anchorPath (rows : List AuditRow) (doc : AnchorDoc) :
    anchorOnly doc (autoEnv rows).anchorPath = some (.anchor doc) := if_pos rfl

/-- An anchor of the key `[1]` is signed again over two rows, where its tip is the first of them. -/
theorem autoEnv_written {A : List AuditRow} {doc : AnchorDoc}
    (hdoc : (ChainAnchor.signing (.plain [1])).signedDoc .tagged ⟨lit "/a.db", .ok A⟩ [] = .ok doc)
    (hmem : ∃ r ∈ rowsOf [.none, .none], r.recordHash = hashTip A)
    (hseq : lastSeq A < lastSeq (rowsOf [.none, .none])) :
    ∃ new, (verifyDaemon .tagged (fun _ => none) .plain (autoEnv (rowsOf [.none, .none]))
      (anchorOnly doc)).written = some new := by
  have hL : verifyChain .tagged (.ok (rowsOf [.none, .none])) = .ok (.valid 2) := by decide +kernel
  have htimes : ComparableTimes (fun _ => none) (rowsOf [.none, .none]) [] := by
    intro newest _ a ha
    cases ha
  have hreg : (ChainAnchor.signing (.plain [1])).readRegistry ⟨some doc, none⟩
      = .ok ⟨[1], .ed25519, none, none, [], []⟩ := rfl
  obtain ⟨v, hverify, hv⟩ := verify_stale_of_mem (honest_plain (by simp)) hdoc
    (verifyChain_valid_iff.mp hL).1.readable hmem hseq htimes rfl hreg ⟨Or.inl (by decide), rfl⟩
  rw [verifyDaemon, DaemonOutcome.saveState_written]
  exact check_written_of_stale (signs_plain [1]) rfl rfl rfl rfl hL
    (anchorOnly_anchorPath _ doc) hverify hv

/-- A stale anchor over one row is signed again over two. -/
theorem verifyDaemon_launders_nothing_grown : ∃ doc new,
    (verifyDaemon .tagged (fun _ => none) .plain (autoEnv (rowsOf [.none, .none]))
      (anchorOnly doc)).written = some new ∧
    List.Forall₂ SameRow (rowsOf [.none]) ((rowsOf [.none, .none]).take 1) := by
  have hA : verifyChain .tagged (.ok (rowsOf [.none])) = .ok (.valid 1) := by decide +kernel
  obtain ⟨hrows, hlen⟩ := verifyChain_valid_iff.mp hA
  have hread : Chain.read ⟨lit "/a.db", .ok (rowsOf [.none])⟩ = .ok (rowsOf [.none]) := rfl
  obtain ⟨doc, hdoc⟩ := exists_signedDoc (signs_plain [1]) hread hrows.readable []
  obtain ⟨new, hnew⟩ := autoEnv_written hdoc (by decide +kernel) (by decide +kernel)
  have hsnap := (snapshotOf_signedDoc rfl hdoc).1
  obtain ⟨-, rows, n, hread, -, hsame⟩ := (verifyDaemon_launders_nothing collisionFree_tagged
    (autoEnv_paths (rowsOf [.none, .none])) (anchorOnly_anchorPath _ doc) hrows hsnap rfl).1 new
    hnew
  obtain rfl : rowsOf [.none, .none] = rows := Except.ok.inj hread
  rw [hsnap.count, ← hlen] at hsame
  exact ⟨doc, new, hnew, hsame⟩

/-- One row, relabelled under its old hash: the chain no longer verifies. -/
def relabelled : List AuditRow := (rowsOf [.none]).map fun r => { r with component := lit "x" }

/-- An anchor taken of a chain that did not verify is signed again over one that does: the first
row is another one than the anchor covered. -/
theorem verifyDaemon_relabelled : ∃ doc new,
    (ChainAnchor.signing (.plain [1])).signedDoc .tagged ⟨lit "/a.db", .ok relabelled⟩
    [] = .ok doc ∧
    (verifyDaemon .tagged (fun _ => none) .plain (autoEnv (rowsOf [.none, .none]))
      (anchorOnly doc)).written = some new ∧
    ¬List.Forall₂ SameRow relabelled ((rowsOf [.none, .none]).take doc.snapshot.recordCount) := by
  have hreadable : ∀ r ∈ relabelled, Readable .tagged r := by
    have hA : verifyChain .tagged (.ok (rowsOf [.none])) = .ok (.valid 1) := by decide +kernel
    intro r hr
    obtain ⟨s, hs, rfl⟩ := List.mem_map.mp hr
    have hread := (verifyChain_valid_iff.mp hA).1.readable s hs
    exact ⟨hread.parses, hread.digest⟩
  have hread : Chain.read ⟨lit "/a.db", .ok relabelled⟩ = .ok relabelled := rfl
  obtain ⟨doc, hdoc⟩ := exists_signedDoc (signs_plain [1]) hread hreadable []
  obtain ⟨new, hnew⟩ := autoEnv_written hdoc (by decide +kernel) (by decide +kernel)
  refine ⟨doc, new, hdoc, hnew, fun hsame => ?_⟩
  have hcount : doc.snapshot.recordCount = 1 := (snapshotOf_signedDoc rfl hdoc).1.count.trans
    (by decide +kernel)
  rw [hcount] at hsame
  have hcomponents : List.Forall₂ (fun a b => a = b) (relabelled.map AuditRow.component)
      (((rowsOf [.none, .none]).take 1).map AuditRow.component) :=
    List.forall₂_map_left_iff.mpr (List.forall₂_map_right_iff.mpr
      (hsame.imp fun _ _ h => h.component))
  rw [List.forall₂_eq_eq_eq] at hcomponents
  exact absurd hcomponents (by decide +kernel)

end Ledger
