import Msb.Ledger.AnchorSpec
import Msb.Ledger.Notary

/-!
# What a healthy notary says

`verify` checks the last local entry, one object of every number in the remote, and that the numbers
of both sides are the same. It does not compare what the two sides hold under a number, and where
several objects carry one number it reads one of them.

* `verify_healthy_iff` — when the verdict is `HEALTHY`
-/

namespace Ledger

open Py

variable {P : Platform} {C : Crypto} {D : DigitTable}

/-! ## The index of the remote -/

theorem mem_indexInsert {s : Nat} {name : Str} {p : Nat × Str} :
    ∀ {index : List (Nat × Str)}, p ∈ indexInsert s name index → p = (s, name) ∨ p ∈ index
  | [], h => Or.inl (by simpa [indexInsert] using h)
  | (t, other) :: index, h => by
    rw [indexInsert] at h
    split at h
    · exact List.mem_cons.mp h
    split at h
    · rcases List.mem_cons.mp h with h | h
      · exact Or.inl h
      · exact Or.inr (List.mem_cons_of_mem _ h)
    · rcases List.mem_cons.mp h with rfl | h
      · exact Or.inr List.mem_cons_self
      · exact (mem_indexInsert h).imp id (List.mem_cons_of_mem _)

theorem keys_indexInsert {s t : Nat} {name : Str} : ∀ {index : List (Nat × Str)},
    t ∈ (indexInsert s name index).map Prod.fst ↔ t = s ∨ t ∈ index.map Prod.fst
  | [] => by simp [indexInsert]
  | (u, other) :: index => by
    rw [indexInsert]
    split
    · simp
    split
    · next h => simp [h]
    · rw [List.map_cons, List.mem_cons, keys_indexInsert, List.map_cons, List.mem_cons]
      exact or_left_comm

/-- The index holds listed names, under their numbers. -/
theorem mem_remoteIndex {names : List Str} {p : Nat × Str} (h : p ∈ remoteIndex D names) :
    p.2 ∈ names ∧ entryNameSeq D p.2 = some p.1 := by
  unfold remoteIndex at h
  induction names using List.reverseRecOn with
  | nil => cases h
  | append_singleton names name ih =>
    rw [List.foldl_append, List.foldl_cons, List.foldl_nil] at h
    split at h
    · next s hs =>
      rcases mem_indexInsert h with rfl | h
      · exact ⟨by simp, hs⟩
      · exact ⟨List.mem_append_left _ (ih h).1, (ih h).2⟩
    · exact ⟨List.mem_append_left _ (ih h).1, (ih h).2⟩

/-- The index has the numbers of the listed names. -/
theorem keys_remoteIndex {names : List Str} {s : Nat} :
    s ∈ (remoteIndex D names).map Prod.fst ↔ ∃ name ∈ names, entryNameSeq D name = some s := by
  unfold remoteIndex
  induction names using List.reverseRecOn with
  | nil => simp
  | append_singleton names name ih =>
    rw [List.foldl_append, List.foldl_cons, List.foldl_nil]
    simp only [List.mem_append, List.mem_singleton, or_and_right, exists_or, exists_eq_left]
    split
    · next t ht => rw [keys_indexInsert, ih, ht, Option.some.injEq, or_comm, eq_comm]
    · next hnone => simp [ih, hnone]

/-! ## Validated objects -/

theorem verdict_eq_healthy {health : NotaryHealth} : health.verdict = lit "HEALTHY" ↔
    ∃ entries head remoteHead receivedAt, health = .healthy entries head remoteHead receivedAt := by
  cases health with
  | healthy entries head remoteHead receivedAt => exact ⟨fun _ => ⟨_, _, _, _, rfl⟩, fun _ => rfl⟩
  | _ =>
    simp only [NotaryHealth.verdict, reduceCtorEq, exists_false, iff_false]
    decide

/-- The object was read, and its content is an entry that is accepted. -/
def Validated (P : Platform) (C : Crypto) (self : NotaryService) (chain : Chain) (call : VerifyCall)
    (files : NotaryFiles) (name : Str) : Prop :=
  ∃ data text entry verdict, readSink (call.read name) name files.objects = .ok (some data) ∧
    decode data = some text ∧ loads text = .ok entry ∧
    self.anchor.verifyEntry P C entry chain files.store = .ok verdict ∧ verdict.isValid = true

section

variable {self : NotaryService} {chain : Chain} {call : VerifyCall} {files : NotaryFiles}

/-- An object with which nothing is wrong. -/
theorem checkObject_eq_none {name : Str} :
    self.checkObject P C chain call files name = .ok none ↔
    Validated P C self chain call files name := by
  unfold NotaryService.checkObject Validated
  rw [bind_eq_ok]
  constructor
  · rintro ⟨data?, hread, h⟩
    cases data? with
    | none => simp at h
    | some data =>
      cases hdecode : decode data with
      | none => simp [hdecode] at h
      | some text =>
        cases hloads : loads text with
        | error e => simp [hdecode, hloads] at h
        | ok entry =>
          simp only [hdecode, hloads] at h
          obtain ⟨verdict, hverdict, h⟩ := bind_eq_ok.mp h
          refine ⟨data, text, entry, verdict, hread, hdecode, hloads, hverdict, ?_⟩
          by_contra hvalid
          simp [hvalid] at h
  · rintro ⟨data, text, entry, verdict, hread, hdecode, hloads, hverdict, hvalid⟩
    refine ⟨some data, hread, ?_⟩
    simp only [hdecode, hloads]
    exact bind_eq_ok.mpr ⟨verdict, hverdict, by simp [hvalid]⟩

/-- Nothing is wrong with any object of the index. -/
theorem checks_eq_nil {index : List (Nat × Str)} :
    (∃ checks, (index.mapM fun p => self.checkObject P C chain call files p.2) = .ok checks ∧
      checks.filterMap id = []) ↔ ∀ p ∈ index, Validated P C self chain call files p.2 := by
  simp only [mapM_eq_ok]
  induction index with
  | nil => simp
  | cons p index ih =>
    rw [List.forall_mem_cons, ← ih]
    constructor
    · rintro ⟨checks, hchecks, hnil⟩
      obtain ⟨check, checks, hcheck, hrest, rfl⟩ := List.forall₂_cons_left_iff.mp hchecks
      cases check with
      | some message => simp at hnil
      | none => exact ⟨checkObject_eq_none.mp hcheck, checks, hrest, by simpa using hnil⟩
    · rintro ⟨hvalid, checks, hrest, hnil⟩
      exact ⟨none :: checks, .cons (checkObject_eq_none.mpr hvalid) hrest, by simpa using hnil⟩

/-- The numbers of the index are those of the local log. -/
theorem sameSeqs_iff {index : List (Nat × Str)} {count : Nat} :
    ((index.map Prod.fst).filter fun s => !(List.range' 1 count).contains s) = [] ∧
      ((List.range' 1 count).filter fun s => !(index.map Prod.fst).contains s) = [] ↔
      ∀ s, s ∈ index.map Prod.fst ↔ 1 ≤ s ∧ s ≤ count := by
  have hrange : ∀ s, s ∈ List.range' 1 count ↔ 1 ≤ s ∧ s ≤ count := by
    intro s
    rw [List.mem_range'_1]
    omega
  simp only [List.filter_eq_nil_iff, Bool.not_eq_true', Bool.not_eq_false,
    List.contains_iff_mem, hrange]
  constructor
  · rintro ⟨hextra, hmissing⟩ s
    exact ⟨hextra s, hmissing s⟩
  · intro h
    exact ⟨fun s => (h s).mp, fun s => (h s).mpr⟩

/-- **When the remote makes the verdict healthy**: the numbers agree, and the objects of the index
are accepted. -/
theorem verifyRemote_healthy_iff {count : Nat} {head : EntryVerdict} :
    (∃ health, self.verifyRemote P C D chain call files count head = .ok health ∧
      health.verdict = lit "HEALTHY") ↔
    ∃ names receivedAt, listSink D call.listing files.objects = .ok names ∧
      remoteIndex D names ≠ [] ∧
      (∀ p ∈ remoteIndex D names, Validated P C self chain call files p.2) ∧
      (∀ s, (∃ name ∈ names, entryNameSeq D name = some s) ↔ 1 ≤ s ∧ s ≤ count) ∧
      statSink call.stat call.modtime = .ok receivedAt := by
  unfold NotaryService.verifyRemote
  cases hlist : listSink D call.listing files.objects with
  | error e =>
    simp only [reduceCtorEq, false_and, exists_false, iff_false, not_exists, not_and]
    intro health h hverdict
    split at h
    · obtain rfl := Except.ok.inj h
      exact absurd (verdict_eq_healthy.mp hverdict) (by simp)
    · cases h
  | ok names =>
    simp only [Except.ok.injEq, exists_and_left, exists_eq_left', ← keys_remoteIndex]
    generalize remoteIndex D names = index
    cases hhead : index.getLast? with
    | none =>
      obtain rfl := List.getLast?_eq_none_iff.mp hhead
      simp [verdict_eq_healthy]
    | some p =>
      have hne : index ≠ [] := by
        rintro rfl
        cases hhead
      rw [← checks_eq_nil, ← sameSeqs_iff]
      simp only [bind_eq_ok]
      constructor
      · rintro ⟨health, ⟨checks, hchecks, h⟩, hverdict⟩
        split at h
        · obtain rfl := Except.ok.inj h
          exact absurd (verdict_eq_healthy.mp hverdict) (by simp)
        · next hinvalid =>
          obtain ⟨receivedAt, hstat, h⟩ := bind_eq_ok.mp h
          split at h
          · obtain rfl := Except.ok.inj h
            exact absurd (verdict_eq_healthy.mp hverdict) (by simp)
          · next hextra =>
            split at h
            · obtain rfl := Except.ok.inj h
              exact absurd (verdict_eq_healthy.mp hverdict) (by simp)
            · next hmissing =>
              refine ⟨hne, ⟨checks, hchecks, by simpa using hinvalid⟩, ⟨?_, ?_⟩, receivedAt, hstat⟩
              · simpa only [Bool.not_eq_true', Bool.not_eq_false, List.isEmpty_iff] using hextra
              · simpa only [Bool.not_eq_true', Bool.not_eq_false, List.isEmpty_iff] using hmissing
      · rintro ⟨-, ⟨checks, hchecks, hinvalid⟩, ⟨hextra, hmissing⟩, receivedAt, hstat⟩
        refine ⟨.healthy count head p.2 receivedAt, ⟨checks, hchecks, ?_⟩, rfl⟩
        rw [if_neg (by rw [hinvalid]; simp)]
        refine bind_eq_ok.mpr ⟨receivedAt, hstat, ?_⟩
        rw [if_neg (by rw [hextra]; simp), if_neg (by rw [hmissing]; simp)]

/-- **When the verdict is healthy.** -/
theorem verify_healthy_iff :
    (∃ health, self.verify P C D chain call files = .ok health ∧ health.verdict = lit "HEALTHY") ↔
    self.remote = true ∧ ∃ entries last head names receivedAt,
      readLocalEntries files.localLog = .ok entries ∧ entries.getLast? = some last ∧
      self.anchor.verifyEntry P C last chain files.store = .ok head ∧ head.isValid = true ∧
      listSink D call.listing files.objects = .ok names ∧
      remoteIndex D names ≠ [] ∧
      (∀ p ∈ remoteIndex D names, Validated P C self chain call files p.2) ∧
      (∀ s, (∃ name ∈ names, entryNameSeq D name = some s) ↔ 1 ≤ s ∧ s ≤ entries.length) ∧
      statSink call.stat call.modtime = .ok receivedAt := by
  unfold NotaryService.verify
  cases hread : readLocalEntries files.localLog with
  | error e =>
    simp only [reduceCtorEq, false_and, exists_false, and_false, iff_false]
    cases e with
    | raised name message =>
      simp only
      split
      · simp [verdict_eq_healthy]
      · simp
    | _ => simp
  | ok entries =>
    simp only [Except.ok.injEq, exists_and_left, exists_eq_left']
    cases hlast : entries.getLast? with
    | none => simp [verdict_eq_healthy]
    | some last =>
      simp only [Option.some.injEq, exists_eq_left']
      cases hhead : self.anchor.verifyEntry P C last chain files.store with
      | error e => simp [bind, Except.bind]
      | ok head =>
        simp only [bind, Except.bind, Except.ok.injEq, exists_eq_left']
        by_cases hvalid : head.isValid = true
        · by_cases hremote : self.remote = true
          · simpa [hvalid, hremote] using @verifyRemote_healthy_iff P C D self chain call files
              entries.length head
          · simp [hvalid, hremote, verdict_eq_healthy]
        · simp [hvalid, verdict_eq_healthy]

end

end Ledger
