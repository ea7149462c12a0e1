import Msb.Ledger.AnchorSpec
import Msb.Ledger.Notary

/-!
# The rollback guard of the notary

`notarize` lists the remote before it writes anything, and refuses when the remote holds a number
that the local log has not reached. Whether the guard is closed when the remote cannot be listed
depends on the sink: a listing that raises stops the call, a listing command that exits with an
error reads as an empty remote.

* `remoteSeqs_eq_ok` — when the guard gets numbers to check
* `notarize_failClosed_iff` — when a call is closed: exactly the exit with an error is open
-/

namespace Ledger

open Py

variable {P : Platform} {D : DigitTable}

/-! ## The numbers of the remote -/

theorem listSink_of_exitsNonzero {call : SinkCall} (h : call.ExitsNonzero) (objects : Remote) :
    listSink D call objects = .ok [] := by
  cases call with
  | file result => exact absurd h id
  | command ending =>
    obtain ⟨returncode, output, rfl, hcode⟩ := h
    rw [listSink]
    exact if_pos hcode

/-- A listing returns when it works, and when the command exits with an error. -/
theorem works_of_listSink {call : SinkCall} {objects : Remote} {names : List Str}
    (h : listSink D call objects = .ok names) : call.Works ∨ call.ExitsNonzero := by
  cases call with
  | file result =>
    cases result with
    | error e => simp [listSink] at h
    | ok u => exact Or.inl rfl
  | command ending =>
    cases ending with
    | exited returncode output =>
      by_cases hcode : returncode = 0
      · rw [hcode]
        exact Or.inl ⟨output, rfl⟩
      · exact Or.inr ⟨returncode, output, rfl, hcode⟩
    | notRun message => simp [listSink] at h
    | raised e => simp [listSink] at h

theorem not_works_of_exitsNonzero {call : SinkCall} (h : call.ExitsNonzero) : ¬ call.Works := by
  cases call with
  | file result => exact absurd h id
  | command ending =>
    obtain ⟨returncode, output, rfl, hcode⟩ := h
    rintro ⟨output', heq⟩
    exact hcode (CommandEnding.exited.inj heq).1

theorem remoteSeqs_eq_ok {call : SinkCall} {objects : Remote} {seqs : List Nat} :
    remoteSeqs D call objects = .ok seqs ↔
      ∃ names, listSink D call objects = .ok names ∧ seqs = names.filterMap (entryNameSeq D) := by
  unfold remoteSeqs
  split
  · next names h => simp [h, eq_comm]
  · next h =>
    rw [h]
    split <;> simp
  · next h => simp [h]

variable {call : NotarizeCall} {anchor : ChainAnchor} {files : NotaryFiles} {chain : Chain}

/-- What passes the guard. -/
theorem guard_eq_ok {entries : List PyVal} {seqs : List Nat} :
    (NotaryService.mk anchor true).guard D call files = .ok (entries, seqs) ↔
      readLocalEntries files.localLog = .ok entries ∧
      remoteSeqs D call.listing files.objects = .ok seqs ∧ ∀ s ∈ seqs, s ≤ entries.length := by
  unfold NotaryService.guard
  split
  · next h =>
    rw [h]
    split <;> simp
  · next h => simp [h]
  · next entries' h =>
    simp only [h, if_true, bind_eq_ok, Except.ok.injEq]
    constructor
    · rintro ⟨seqs', hseqs, hguard⟩
      by_cases hany : (seqs'.any fun s => entries'.length < s) = true
      · simp [hany] at hguard
      · rw [if_neg hany] at hguard
        obtain ⟨rfl, rfl⟩ := Prod.mk.inj (Except.ok.inj hguard)
        refine ⟨rfl, hseqs, fun s hs => ?_⟩
        simp only [List.any_eq_true, decide_eq_true_eq, not_exists, not_and, not_lt] at hany
        exact hany s hs
    · rintro ⟨rfl, hseqs, hle⟩
      refine ⟨seqs, hseqs, ?_⟩
      rw [if_neg]
      simpa using hle

/-! ## One call -/

/-- **The law of the guard**: the numbers of the remote were obtained and the local log has reached
all of them, or the call raises and neither side is changed. -/
def FailClosed (P : Platform) (D : DigitTable) (anchor : ChainAnchor) (chain : Chain)
    (call : NotarizeCall) (files : NotaryFiles) : Prop :=
  let done := (NotaryService.mk anchor true).notarize P D chain call files
  (∃ entries seqs, readLocalEntries files.localLog = .ok entries ∧ call.listing.Works ∧
      remoteSeqs D call.listing files.objects = .ok seqs ∧ ∀ s ∈ seqs, s ≤ entries.length) ∨
    (∃ e, done.1 = .error e) ∧ done.2.localLog = files.localLog ∧ done.2.objects = files.objects

/-- Something else stops the call before it writes anything. -/
def StopsEarly (P : Platform) (anchor : ChainAnchor) (chain : Chain) (call : NotarizeCall)
    (files : NotaryFiles) : Prop :=
  (∃ e, readLocalEntries files.localLog = .error e) ∨
    (∃ e, (anchor.buildNotaryEntry P chain call.now.isoformat files.store).1 = .error e) ∨
    (∃ e, call.stamp = .unavailable e) ∨ ∃ e, call.write = .notOpened e

theorem comparable_str {items : List (PyKey × PyVal)} (h : ∀ p ∈ items, p.1.isStr = true) :
    comparable (items.map Prod.fst) = true := by
  have hall : (items.map Prod.fst).all PyKey.isStr = true := by simpa using h
  simp [comparable, hall]

theorem sortable_anchorDict (d : AnchorDoc) : sortable d.dict = true := by
  cases hkey : d.keyAlgorithm <;>
    simp [AnchorDoc.dict, hkey, sortable, sortableItems, comparable, PyKey.isStr, sortable_snapshot]

theorem sortable_stampProof (p : StampProof) : sortable p.dict = true := by
  have hopt : ∀ o : Option Str, sortable (optStr o) = true := fun o => by cases o <;> rfl
  simp [StampProof.dict, sortable, sortableItems, comparable, PyKey.isStr, hopt]

theorem sortable_entryDict (e : NotaryEntry) (proof : Option StampProof) :
    sortable (entryDict e proof) = true := by
  cases proof <;>
    simp [entryDict, sortable, sortableItems, comparable, PyKey.isStr, sortable_anchorDict,
      sortable_stampProof]

/-- A value that can be sorted has a compact line. -/
theorem exists_line {v : PyVal} (h : sortable v = true) :
    ∃ data, dumps P.keySort true compactStyle v =
    .ok (render compactStyle (toJson P.keySort true v)) ∧
      encodeE (render compactStyle (toJson P.keySort true v) ++ [10]) = .ok data := by
  have hascii : Ascii (render compactStyle (toJson P.keySort true v) ++ [10]) := by
    rintro c hc
    rcases List.mem_append.mp hc with hc | hc
    · exact ascii_render compactStyle rfl _ c hc
    · rw [List.mem_singleton.mp hc]
      decide
  obtain ⟨data, hdata⟩ := encode_of_ascii hascii
  exact ⟨data, by simp [dumps, h], encodeE_eq_ok.mpr hdata⟩

/-- The line of an entry fails only with its stamp. -/
theorem stampEntry_isOk {entry : NotaryEntry} :
    (∃ r, stampEntry P call entry = .ok r) ↔ ∀ e, call.stamp ≠ .unavailable e := by
  obtain ⟨canonical, hcan⟩ := canonicalBytes_isOk (P := P).mpr (sortable_entryDict entry none)
  have hcan : canonicalBytes P entry.stampedDict = .ok canonical := hcan
  simp only [stampEntry, bind_eq_ok, hcan, Except.ok.injEq, exists_eq_left']
  constructor
  · rintro ⟨_, proof, hproof, -⟩ e he
    simp [he, StampCall.stamp] at hproof
  · intro h
    have hstamp : ∃ proof, call.stamp.stamp P canonical = .ok proof := by
      cases hcase : call.stamp with
      | unavailable e => exact absurd hcase (h e)
      | off => exact ⟨_, rfl⟩
      | received receivedAt note => exact ⟨_, rfl⟩
      | granted tsaUrl genTime receivedAt tokenB64 note => exact ⟨_, rfl⟩
    obtain ⟨proof, hproof⟩ := hstamp
    obtain ⟨data, hline, hdata⟩ := exists_line (P := P) (sortable_entryDict entry proof)
    exact ⟨_, proof, hproof, _, hline, data, hdata, rfl⟩

/-- A line is never empty. -/
theorem stampEntry_ne_nil {entry : NotaryEntry} {line : Bytes} {proof : Option StampProof}
    (h : stampEntry P call entry = .ok (line, proof)) : line ≠ [] := by
  simp only [stampEntry, bind_eq_ok] at h
  obtain ⟨_, -, _, -, text, -, data, hdata, h⟩ := h
  obtain ⟨rfl, rfl⟩ := Prod.mk.inj (Except.ok.inj h)
  rintro rfl
  have hempty := decode_encode (encodeE_eq_ok.mp hdata)
  have hnil : decode [] = some [] := by decide
  rw [hnil] at hempty
  simp at hempty

theorem notarize_of_guard_error {e : PyError}
    (h : (NotaryService.mk anchor true).guard D call files = .error e) :
    (NotaryService.mk anchor true).notarize P D chain call files = (.error e, files) := by
  unfold NotaryService.notarize
  rw [h]

/-- What stops a call early leaves both sides as they were. -/
theorem notarize_of_stopsEarly (h : StopsEarly P anchor chain call files) :
    let done := (NotaryService.mk anchor true).notarize P D chain call files
    (∃ e, done.1 = .error e) ∧ done.2.localLog = files.localLog ∧
        done.2.objects = files.objects := by
  intro done
  show (∃ e, ((NotaryService.mk anchor true).notarize P D chain call files).1 = .error e) ∧
    ((NotaryService.mk anchor true).notarize P D chain call files).2.localLog = files.localLog ∧
    ((NotaryService.mk anchor true).notarize P D chain call files).2.objects = files.objects
  cases hguard : (NotaryService.mk anchor true).guard D call files with
  | error e =>
    rw [notarize_of_guard_error hguard]
    exact ⟨⟨e, rfl⟩, rfl, rfl⟩
  | ok passed =>
    obtain ⟨entries, seqs⟩ := passed
    obtain ⟨hread, -, -⟩ := guard_eq_ok.mp hguard
    unfold NotaryService.notarize
    rw [hguard]
    simp only
    split
    · exact ⟨⟨_, rfl⟩, rfl, rfl⟩
    · next entry store hbuild =>
      split
      · exact ⟨⟨_, rfl⟩, rfl, rfl⟩
      · next line proof hstamp =>
        rcases h with ⟨e, he⟩ | ⟨e, he⟩ | ⟨e, he⟩ | ⟨e, he⟩
        · rw [hread] at he
          cases he
        · rw [hbuild] at he
          cases he
        · exact absurd he (stampEntry_isOk.mp ⟨_, hstamp⟩ e)
        · rw [he]
          exact ⟨⟨e, rfl⟩, rfl, rfl⟩

/-- A call that nothing stops writes to the local log. -/
theorem notarize_writes {passed : List PyVal × List Nat}
    (hguard : (NotaryService.mk anchor true).guard D call files = .ok passed)
    (h : ¬ StopsEarly P anchor chain call files) :
    ((NotaryService.mk anchor true).notarize P D chain call files).2.localLog ≠ files.localLog := by
  obtain ⟨-, hbuild, hstamp, hwrite⟩ : _ ∧ _ ∧ _ ∧ _ := by
    simpa only [StopsEarly, not_or] using h
  unfold NotaryService.notarize
  rw [hguard]
  simp only
  split
  · next e store heq => exact absurd ⟨e, by rw [heq]⟩ hbuild
  · next entry store _ =>
    obtain ⟨⟨line, proof⟩, hline⟩ : ∃ r, stampEntry P call entry = .ok r :=
      stampEntry_isOk.mpr fun e he => hstamp ⟨e, he⟩
    rw [hline]
    -- what is appended is never empty
    have hgrows : ∀ data : Bytes, data ≠ [] → some (files.localLog.getD [] ++ data) ≠
        files.localLog := by
      intro data hdata heq
      cases hlog : files.localLog with
      | none => rw [hlog] at heq; cases heq
      | some log =>
        rw [hlog] at heq
        exact hdata (by simpa using heq)
    have hne := stampEntry_ne_nil hline
    cases hcase : call.write with
    | notOpened e => exact absurd ⟨e, hcase⟩ hwrite
    | torn kept e =>
      simp only [appendLocal]
      exact hgrows _ (by simpa using hne)
    | done =>
      simp only [appendLocal, if_true]
      exact hgrows line hne

/-- A call that the listing leaves open is not closed. -/
theorem not_failClosed (hexit : call.listing.ExitsNonzero)
    (h : ¬ StopsEarly P anchor chain call files) : ¬ FailClosed P D anchor chain call files := by
  rintro (⟨entries, seqs, -, hworks, -, -⟩ | ⟨-, hlog, -⟩)
  · exact not_works_of_exitsNonzero hexit hworks
  · obtain ⟨entries, hentries⟩ : ∃ entries, readLocalEntries files.localLog = .ok entries := by
      cases hread : readLocalEntries files.localLog with
      | error e => exact absurd (Or.inl ⟨e, hread⟩) h
      | ok entries => exact ⟨entries, rfl⟩
    have hseqs : remoteSeqs D call.listing files.objects = .ok [] :=
      remoteSeqs_eq_ok.mpr ⟨[], listSink_of_exitsNonzero hexit _, rfl⟩
    exact notarize_writes (guard_eq_ok.mpr ⟨hentries, hseqs, by simp⟩) h hlog

/-- **When a call is closed**: exactly when the listing command does not exit with an error, or
something else stops the call before it writes. -/
theorem notarize_failClosed_iff (P : Platform) (D : DigitTable) (anchor : ChainAnchor)
    (chain : Chain) (call : NotarizeCall) (files : NotaryFiles) :
    FailClosed P D anchor chain call files ↔
      ¬ call.listing.ExitsNonzero ∨ StopsEarly P anchor chain call files := by
  constructor
  · intro hclosed
    by_contra hopen
    obtain ⟨hexit, hstops⟩ := not_or.mp hopen
    exact not_failClosed (not_not.mp hexit) hstops hclosed
  · rintro (hexit | hstops)
    · cases hguard : (NotaryService.mk anchor true).guard D call files with
      | error e =>
        refine Or.inr ?_
        rw [notarize_of_guard_error hguard]
        exact ⟨⟨e, rfl⟩, rfl, rfl⟩
      | ok passed =>
        obtain ⟨entries, seqs⟩ := passed
        obtain ⟨hread, hseqs, hle⟩ := guard_eq_ok.mp hguard
        obtain ⟨names, hnames, -⟩ := remoteSeqs_eq_ok.mp hseqs
        exact Or.inl ⟨entries, seqs, hread, (works_of_listSink hnames).resolve_right hexit,
          hseqs, hle⟩
    · exact Or.inr (notarize_of_stopsEarly hstops)

/-! ### A listing that exits with an error -/

/-- An anchor that is on file. -/
def filedAnchor : AnchorDoc := ⟨⟨1, [], 1, 1, [], none, [], []⟩, [], [], none⟩

/-- The remote knows entry 2, the local log was rolled back to nothing. -/
def rolledBackFiles : NotaryFiles :=
  ⟨⟨some filedAnchor, none⟩, none, [(entryName 2 (lit "2026-07-29T12:00:00+00:00"), [])]⟩

/-- The listing command exits with 3; everything else works. -/
def listingExits : NotarizeCall where
  now := ⟨2026, 7, 29, 12, 0, 0, 0⟩
  listing := .command (.exited 3 [])
  stamp := .off
  write := .done
  push _ := .command (.exited 0 []) fun name data remote => remote.put name data

/-- The call writes although the remote is ahead of the local log. -/
theorem not_guardFailClosed :
    ¬ ∀ anchor chain call files, FailClosed .tagged .asciiOnly anchor chain call files := by
  intro h
  have hexit : listingExits.listing.ExitsNonzero := ⟨3, [], rfl, by decide⟩
  refine not_failClosed hexit ?_
    (h (.signing (.plain [1])) ⟨[], .ok []⟩ listingExits rolledBackFiles)
  rintro (⟨e, he⟩ | ⟨e, he⟩ | ⟨e, he⟩ | ⟨e, he⟩) <;> cases he

end Ledger
