import Msb.Ops.Discrepancy
import Msb.Wake.Store

/-!
# The closed loop

`ops/verify.py`: what was wrong before a repair is compared with what is wrong after it. A snapshot
holds the discrepancies that are open, as a query returns them, the failed and the pending messages
of the wake inbox, and the age of the anchor; the verdict is made of two snapshots.

* `verified_iff`, `regressed_iff` — what a verdict says about the snapshots
* `verdictTrue_iff` — when it is true of the stores
* `closed_loop_law` — the engine and the action that resolves a discrepancy together
-/

namespace Ops.Verify

open Py Ledger Ranking Wake

/-! ## The provider of an error -/

/-- What the engine asks the language: `c.isalnum()`, and `str` of a value. -/
structure VerifyLib where
  isAlnum : CodePoint → Bool
  str : PyVal → Str

/-- `re.I` for a character of a pattern. -/
def sameIgnoringCase (p c : CodePoint) : Bool :=
  c = p || (0x61 ≤ p.val && c.val + 32 = p.val) ||
    (p.val = 0x69 && (c.val = 0x130 || c.val = 0x131)) ||
    (p.val = 0x6b && c.val = 0x212a) || (p.val = 0x73 && c.val = 0x17f)

def startsLike : Str → Str → Bool
  | [], _ => true
  | _ :: _, [] => false
  | p :: ps, c :: cs => sameIgnoringCase p c && startsLike ps cs

/-- `c` is part of a word. -/
def isWordChar (lib : VerifyLib) (c : CodePoint) : Bool := lib.isAlnum c || c = 0x5f

/-- The text is found in an error, as a whole word where `whole` says so. The first argument is the
character before. -/
def found (lib : VerifyLib) (whole : Bool) (text : Str) : Option CodePoint → Str → Bool
  | before, [] => text = [] && (!whole || !before.any (isWordChar lib))
  | before, c :: cs =>
    (startsLike text (c :: cs) &&
      (!whole || (!before.any (isWordChar lib) && !((c :: cs).drop text.length).head?.any
        (isWordChar lib)))) ||
    found lib whole text (some c) cs

/-- `_PROVIDER_PATTERNS`: a name, and the texts that stand for it, each with whether it is a whole
word. -/
def providerPatterns : List (Str × List (Bool × Str)) :=
  [(lit "deepseek", [(false, lit "deepseek"), (false, lit "ds-api")]),
    (lit "ollama", [(false, lit "ollama"), (false, lit "qwen")]),
    (lit "qdrant", [(false, lit "qdrant")]),
    (lit "zapier", [(false, lit "zapier")]),
    (lit "make", [(true, lit "make"), (false, lit "integromat")]),
    (lit "telegram", [(false, lit "telegram")]),
    (lit "rclone", [(false, lit "rclone"), (false, lit "gdrive")])]

/-- `parse_error(error or "").get("provider") or "unknown"` -/
def providerOf (lib : VerifyLib) (error : Option Str) : Str :=
  ((providerPatterns.find? fun p => p.2.any fun t => found lib t.1 t.2 none (error.getD [])).map
    Prod.fst).getD (lit "unknown")

/-! ## Snapshots -/

/-- The stores at one time, and the age of the anchor in microseconds. A store that cannot be read
raises. -/
structure Sources where
  now : Str
  discrepancies : Except PyError DiscrepancyStore
  wake : Except PyError (List InboxRow)
  anchorAge : Option Int

structure Snapshot where
  ts : Str
  openFingerprints : Option (List Str)
  openDiscrepancyIds : Option (List Str)
  wakeFailedByProvider : Option (List (Str × ℕ))
  wakePending : Option ℕ
  anchorAge : Option Int

/-- `sorted` -/
def sortedTexts (texts : List Str) : List Str := texts.insertionSort (· ≤ ·)

/-- `by_provider.get(provider, 0)` -/
def countOf (provider : Str) (counts : List (Str × ℕ)) : ℕ :=
  ((Keyed.find Prod.fst provider counts).map Prod.snd).getD 0

/-- The loop over the rows that failed. -/
def failedByProvider (lib : VerifyLib) (rows : List InboxRow) : List (Str × ℕ) :=
  (rows.filter fun r => r.status = .failed).foldl
    (fun counts r =>
      Keyed.put Prod.fst (providerOf lib r.error, countOf (providerOf lib r.error) counts + 1)
      counts) []

/-- The discrepancies that a snapshot sees. -/
def seen (s : DiscrepancyStore) : List Discrepancy := s.query { status := some .opened }

/-- `capture` -/
def capture (lib : VerifyLib) (s : Sources) : Snapshot where
  ts := s.now
  openFingerprints :=
    s.discrepancies.toOption.map fun d => sortedTexts ((seen d).map Discrepancy.fingerprint)
  openDiscrepancyIds :=
    s.discrepancies.toOption.map fun d => sortedTexts ((seen d).map Discrepancy.id)
  wakeFailedByProvider := s.wake.toOption.map (failedByProvider lib)
  wakePending := s.wake.toOption.map fun rows => rows.countP fun r => r.status = .pending
  anchorAge := s.anchorAge

/-! ## The verdict -/

inductive Verdict where
  | verified
  | notVerified
  | regressed
  | inconclusive
  deriving DecidableEq

/-- `_ANCHOR_FRESH_S`, in microseconds -/
def anchorFresh : Int := 600 * 10 ^ 6

def natText (n : ℕ) : Str := (intLit n).text

/-- `f"{v}"` -/
def shown (lib : VerifyLib) : PyVal → Str
  | .str s => s
  | v => lib.str v

def shownBool (b : Bool) : Str := if b then lit "True" else lit "False"

/-- `round(age)`, of an age in microseconds: a half goes to the even second. -/
def roundSeconds (age : Int) : Int :=
  let seconds := age / 10 ^ 6
  let rest := age % 10 ^ 6
  if rest < 500000 ∨ (rest = 500000 ∧ seconds % 2 = 0) then seconds else seconds + 1

def secondsText (age : Int) : Str := (intLit (roundSeconds age)).text ++ lit "s"

/-- `v` has a hash. -/
def hashable : PyVal → Bool
  | .list _ | .dict _ => false
  | _ => true

/-- `counts.get(v, 0)` -/
def countOfValue (v : PyVal) (counts : List (Str × ℕ)) : Except PyError ℕ :=
  match v with
  | .str provider => .ok (countOf provider counts)
  | v => if hashable v then .ok 0 else .error .typeError

/-- `v in set(ids)` -/
def inIds (v : PyVal) (ids : List Str) : Except PyError Bool :=
  match v with
  | .str id => .ok (id ∈ ids)
  | v => if hashable v then .ok false else .error .typeError

/-- `params.get(key, "")` -/
def paramOf (params : Dict) (key : String) : PyVal := (getItem params (lit key)).getD (.str [])

/-- `_target_resolved` -/
def targetResolved (lib : VerifyLib) (action : Action) (params : Dict) (before : Option Snapshot)
    (after : Snapshot) : Except PyError (Option Bool × Str) :=
  match action with
  | .requeueWake =>
    let provider := paramOf params "provider"
    match after.wakeFailedByProvider with
    | none =>
      .ok (none, lit "wake store unreadable — cannot judge " ++ shown lib provider ++
        lit " failed messages")
    | some afterWake => do
      let afterFailed ← countOfValue provider afterWake
      let label := lit "failed " ++ shown lib provider ++ lit " messages"
      match before with
      | none => .ok (some (afterFailed = 0), label ++ lit " after: " ++ natText afterFailed)
      | some before =>
        match before.wakeFailedByProvider with
        | none =>
          .ok (some (afterFailed = 0), label ++ lit ": before unreadable → " ++ natText afterFailed)
        | some beforeWake => do
          let beforeFailed ← countOfValue provider beforeWake
          .ok (some (afterFailed = 0), label ++ lit ": " ++ natText beforeFailed ++ lit " → " ++
            natText afterFailed)
  | .quarantineWake =>
    match after.wakePending with
    | none => .ok (none, lit "wake store unreadable — cannot judge pending backlog")
    | some afterPending =>
      match before with
      | none =>
        .ok (some (afterPending = 0), lit "pending wake messages after: " ++ natText afterPending)
      | some before =>
        let beforePending := (before.wakePending.map natText).getD (lit "None")
        .ok (some (afterPending = 0), lit "pending wake messages: " ++ beforePending ++ lit " → " ++
          natText afterPending)
  | .reanchorChain =>
    match after.anchorAge with
    | none => .ok (none, lit "anchor unreadable — cannot judge freshness")
    | some age =>
      match before with
      | none => .ok (some (age ≤ anchorFresh), lit "anchor age after: " ++ secondsText age)
      | some before =>
        .ok (some (age ≤ anchorFresh),
          lit "anchor age: " ++ (before.anchorAge.map secondsText).getD (lit "?") ++ lit " → " ++
          secondsText age)
  | .resolveDiscrepancy =>
    let target := paramOf params "discrepancy_id"
    match after.openDiscrepancyIds with
    | none => .ok (none, lit "discrepancy store unreadable — cannot judge target")
    | some afterIds => do
      let openAfter ← inIds target afterIds
      match before with
      | none =>
        .ok (some !openAfter, lit "target " ++ shown lib target ++ lit " open after: " ++
          shownBool openAfter)
      | some before => do
        let openBefore ← inIds target (before.openDiscrepancyIds.getD [])
        .ok (some !openAfter, lit "target " ++ shown lib target ++ lit ": open before=" ++
          shownBool openBefore ++ lit ", open after=" ++ shownBool openAfter)

/-- `_new_discrepancies`: the fingerprints that are new, and whether they could be assessed. -/
def newDiscrepancies (before : Option Snapshot) (after : Snapshot) : List Str × Bool :=
  match before with
  | none => ([], false)
  | some before =>
    match before.openFingerprints, after.openFingerprints with
    | some beforeFps, some afterFps =>
      (sortedTexts (afterFps.dedup.filter fun fp => fp ∉ beforeFps), true)
    | _, _ => ([], false)

structure Outcome where
  verdict : Verdict
  forwardResolved : Option Bool
  forwardDetail : Str
  regressionAssessed : Bool
  newDiscrepancies : List Str
  detail : Str

/-- `compute_verdict` -/
def computeVerdict (lib : VerifyLib) (action : Action) (params : Dict) (before : Option Snapshot)
    (after : Snapshot) : Except PyError Outcome := do
  let (resolved, forwardDetail) ← targetResolved lib action params before after
  let (new, assessed) := newDiscrepancies before after
  let outcome (verdict : Verdict) (detail : Str) : Outcome :=
    ⟨verdict, resolved, forwardDetail, assessed, new, detail⟩
  match resolved with
  | none => .ok (outcome .inconclusive (lit "forward evidence unavailable: " ++ forwardDetail))
  | some resolved =>
    if assessed = false then
      .ok (outcome .inconclusive (lit "no before snapshot — regression not assessed. Forward: " ++
        (if resolved then lit "resolved" else lit "NOT resolved") ++ lit " (" ++
        forwardDetail ++ lit ")"))
    else if new = [] then
      if resolved then
        .ok (outcome .verified
          (lit "target resolved (" ++ forwardDetail ++ lit "); no new discrepancies"))
      else .ok (outcome .notVerified
        (lit "target NOT resolved (" ++ forwardDetail ++ lit "); no new discrepancies"))
    else
      .ok (outcome .regressed (lit "new discrepancy(ies) appeared: " ++
        (lit ", ").intercalate new ++ lit " (forward " ++
        (if resolved then lit "resolved" else lit "not resolved") ++ lit ")"))

/-- The id of a verification, and the time. -/
structure VerificationStamp where
  verificationId : Str
  ts : Str

/-- What a verification returns. -/
structure Report where
  stamp : VerificationStamp
  planId : Str
  action : Action
  outcome : Outcome
  before : Option Snapshot
  after : Snapshot

/-- `_VERIFIABLE` -/
def verifiable : List PlanStatus := [.completed, .rolledBack]

/-- `verify_repair`. The sources are as the scan leaves them. -/
def verifyRepair (lib : VerifyLib) (plans : RepairStore) (stamp : VerificationStamp) (planId : Str)
    (before : Option Snapshot) (after : Sources) : Except PyError Report := do
  let plan ← plans.get planId
  raiseIf (plan.status ∉ verifiable)
    (.valueError (lit "plan " ++ planId ++ lit " is '" ++ plan.status.text ++
    lit "'; verification requires ('completed', 'rolled_back')"))
  let outcome ← computeVerdict lib plan.action plan.params before (capture lib after)
  .ok ⟨stamp, planId, plan.action, outcome, before, capture lib after⟩

/-! ## What a snapshot says -/

section

variable {lib : VerifyLib} {rows : List InboxRow} {provider fp : Str} {counts : List (Str × ℕ)}

theorem mem_sortedTexts {texts : List Str} {t : Str} : t ∈ sortedTexts texts ↔ t ∈ texts :=
  (List.perm_insertionSort _ texts).mem_iff

theorem sortedTexts_eq_nil {texts : List Str} : sortedTexts texts = [] ↔ texts = [] := by
  rw [← List.length_eq_zero_iff, sortedTexts, List.length_insertionSort, List.length_eq_zero_iff]

theorem countOf_put (h : Keyed.Unique Prod.fst counts) (p : Str) (n : ℕ) :
    countOf provider (Keyed.put Prod.fst (p, n) counts) = if provider = p then n
    else countOf provider counts := by
  unfold countOf
  rw [Keyed.find_put h]
  split <;> rfl

/-- The loop counts the rows of each provider. -/
theorem countOf_foldl : ∀ {rows : List InboxRow} {counts : List (Str × ℕ)},
    Keyed.Unique Prod.fst counts → countOf provider (rows.foldl
      (fun counts r =>
        Keyed.put Prod.fst (providerOf lib r.error, countOf (providerOf lib r.error) counts + 1)
        counts) counts) =
      countOf provider counts + rows.countP fun r => providerOf lib r.error = provider
  | [], _, _ => by simp
  | r :: rows, counts, h => by
    rw [List.foldl_cons, countOf_foldl h.put, countOf_put h, List.countP_cons]
    by_cases hp : provider = providerOf lib r.error
    · simp [← hp]
      omega
    · simp [hp, Ne.symm hp]

theorem countOf_failed : countOf provider (failedByProvider lib rows) = 0 ↔
    ¬∃ r ∈ rows, r.status = .failed ∧ provider = providerOf lib r.error := by
  unfold failedByProvider
  have hnil : countOf provider [] = 0 := rfl
  rw [countOf_foldl Keyed.unique_nil, hnil, zero_add, List.countP_eq_zero]
  simp [eq_comm]

variable {v : PyVal}

theorem countOfValue_of_hashable (h : hashable v = true) : ∃ n, countOfValue v counts = .ok n ∧
    (n = 0 ↔ ∀ provider, v = .str provider → countOf provider counts = 0) := by
  unfold countOfValue
  split
  · next provider => exact ⟨_, rfl, by simp⟩
  · next v hne => exact ⟨0, by rw [if_pos h], by simpa using fun p hp => absurd hp (hne p)⟩

theorem inIds_of_hashable {ids : List Str} (h : hashable v = true) :
    ∃ b, inIds v ids = .ok b ∧ (b = true ↔ ∃ id ∈ ids, v = .str id) := by
  unfold inIds
  split
  · next id => exact ⟨_, rfl, by simp⟩
  · next v hne => exact ⟨false, by rw [if_pos h], by simpa using fun id _ => hne id⟩

theorem countOfValue_of_unhashable (h : hashable v = false) :
    countOfValue v counts = .error .typeError := by
  cases v <;> first | rfl | cases h

theorem inIds_of_unhashable {ids : List Str} (h : hashable v = false) :
    inIds v ids = .error .typeError := by
  cases v <;> first | rfl | cases h

end

/-! ## What is true of the stores -/

/-- A discrepancy with the fingerprint is open. -/
def IsOpen (s : Sources) (fp : Str) : Prop :=
  ∃ d, s.discrepancies = .ok d ∧ ∃ r ∈ d.having .opened, r.fingerprint = fp

/-- What the plan was for is still there. -/
def TargetHolds (lib : VerifyLib) (action : Action) (params : Dict) (s : Sources) : Prop :=
  match action with
  | .requeueWake => ∃ rows, s.wake = .ok rows ∧
      ∃ r ∈ rows, r.status = .failed ∧ paramOf params "provider" = .str (providerOf lib r.error)
  | .quarantineWake => ∃ rows, s.wake = .ok rows ∧ ∃ r ∈ rows, r.status = .pending
  | .reanchorChain => ∃ age, s.anchorAge = some age ∧ anchorFresh < age
  | .resolveDiscrepancy =>
    ∃ d, s.discrepancies = .ok d ∧ ∃ r ∈ d.having .opened,
      paramOf params "discrepancy_id" = .str r.id

/-- The same, of what a snapshot sees. -/
def TargetSeen (lib : VerifyLib) (action : Action) (params : Dict) (s : Sources) : Prop :=
  match action with
  | .resolveDiscrepancy =>
    ∃ d, s.discrepancies = .ok d ∧ ∃ r ∈ seen d, paramOf params "discrepancy_id" = .str r.id
  | action => TargetHolds lib action params s

/-- What the plan was for can be judged: the store is read, and the parameter has a hash. -/
def Judged (action : Action) (params : Dict) (s : Sources) : Prop :=
  match action with
  | .requeueWake => (∃ rows, s.wake = .ok rows) ∧ hashable (paramOf params "provider") = true
  | .quarantineWake => ∃ rows, s.wake = .ok rows
  | .reanchorChain => s.anchorAge ≠ none
  | .resolveDiscrepancy =>
    (∃ d, s.discrepancies = .ok d) ∧ hashable (paramOf params "discrepancy_id") = true

section

variable {lib : VerifyLib} {action : Action} {params : Dict} {before : Option Sources}
  {after : Sources}

variable {resolved : Bool}

/-- A check that says something says one thing. -/
theorem forward_iff {x : Except PyError (Option Bool × Str)} {r : Bool} {judged target : Prop}
    (h : ∃ detail, x = .ok (some r, detail)) (hjudged : judged) (hr : r = true ↔ ¬target) :
    (∃ detail, x = .ok (some resolved, detail)) ↔ judged ∧ (resolved = true ↔ ¬target) := by
  obtain ⟨detail, rfl⟩ := h
  have hsame :
      (∃ d, (Except.ok (some r, detail) : Except PyError (Option Bool × Str)) =
        .ok (some resolved, d)) ↔ r = resolved := by
    simp
  rw [hsame, ← hr, and_iff_right hjudged]
  cases r <;> cases resolved <;> simp

theorem requeue_resolved :
    (∃ detail, targetResolved lib .requeueWake params (before.map (capture lib))
      (capture lib after) = .ok (some resolved, detail)) ↔
      Judged .requeueWake params after ∧
      (resolved = true ↔ ¬TargetSeen lib .requeueWake params after) := by
  cases hwake : after.wake with
  | error e => simp [targetResolved, capture, hwake, Judged, Except.toOption]
  | ok rows =>
    cases hhash : hashable (paramOf params "provider") with
    | false =>
      simp [targetResolved, capture, hwake, Judged, Except.toOption,
        countOfValue_of_unhashable hhash, hhash, bind, Except.bind]
    | true =>
      have hcount : ∀ counts, ∃ n, countOfValue (paramOf params "provider") counts = .ok n ∧
          (n = 0 ↔ ∀ provider, paramOf params "provider" = .str provider →
            countOf provider counts = 0) := fun counts =>
        countOfValue_of_hashable hhash
      obtain ⟨n, hn, hzero⟩ := hcount (failedByProvider lib rows)
      refine forward_iff (r := decide (n = 0)) ?_ ⟨⟨rows, hwake⟩, hhash⟩ ?_
      · cases before with
        | none => simp [targetResolved, capture, hwake, Except.toOption, hn, bind, Except.bind]
        | some b =>
          cases hb : b.wake with
          | error e =>
            simp [targetResolved, capture, hwake, hb, Except.toOption, hn, bind, Except.bind]
          | ok beforeRows =>
            obtain ⟨m, hm, -⟩ := hcount (failedByProvider lib beforeRows)
            simp [targetResolved, capture, hwake, hb, Except.toOption, hn, hm, bind, Except.bind]
      · rw [decide_eq_true_eq, hzero]
        constructor
        · rintro hnone ⟨rows', hrows', r, hr, hfailed, hprovider⟩
          obtain rfl := Except.ok.inj (hwake.symm.trans hrows')
          exact countOf_failed.mp (hnone _ hprovider) ⟨r, hr, hfailed, rfl⟩
        · intro hnone provider hprovider
          refine countOf_failed.mpr ?_
          rintro ⟨r, hr, hfailed, rfl⟩
          exact hnone ⟨rows, hwake, r, hr, hfailed, hprovider⟩

theorem quarantine_resolved :
    (∃ detail, targetResolved lib .quarantineWake params (before.map (capture lib))
      (capture lib after) = .ok (some resolved, detail)) ↔
      Judged .quarantineWake params after ∧
      (resolved = true ↔ ¬TargetSeen lib .quarantineWake params after) := by
  cases hwake : after.wake with
  | error e => simp [targetResolved, capture, hwake, Judged, Except.toOption]
  | ok rows =>
    refine forward_iff (r := decide (rows.countP (fun r => r.status = .pending) = 0)) ?_
      ⟨rows, hwake⟩ ?_
    · cases before <;> simp [targetResolved, capture, hwake, Except.toOption]
    · rw [decide_eq_true_eq, List.countP_eq_zero]
      constructor
      · rintro hnone ⟨rows', hrows', r, hr, hpending⟩
        obtain rfl := Except.ok.inj (hwake.symm.trans hrows')
        exact hnone r hr (decide_eq_true hpending)
      · intro hnone r hr hpending
        exact hnone ⟨rows, hwake, r, hr, of_decide_eq_true hpending⟩

theorem reanchor_resolved :
    (∃ detail, targetResolved lib .reanchorChain params (before.map (capture lib))
      (capture lib after) = .ok (some resolved, detail)) ↔
      Judged .reanchorChain params after ∧
      (resolved = true ↔ ¬TargetSeen lib .reanchorChain params after) := by
  cases hage : after.anchorAge with
  | none => simp [targetResolved, capture, hage, Judged]
  | some age =>
    refine forward_iff (r := decide (age ≤ anchorFresh)) ?_ (by simp [Judged, hage]) ?_
    · cases before <;> simp [targetResolved, capture, hage]
    · simp [TargetSeen, TargetHolds, hage]

theorem resolve_resolved :
    (∃ detail, targetResolved lib .resolveDiscrepancy params (before.map (capture lib))
      (capture lib after) = .ok (some resolved, detail)) ↔
      Judged .resolveDiscrepancy params after ∧
          (resolved = true ↔ ¬TargetSeen lib .resolveDiscrepancy params after) := by
  cases hstore : after.discrepancies with
  | error e => simp [targetResolved, capture, hstore, Judged, Except.toOption]
  | ok d =>
    cases hhash : hashable (paramOf params "discrepancy_id") with
    | false =>
      simp [targetResolved, capture, hstore, Judged, Except.toOption, inIds_of_unhashable hhash,
        hhash, bind, Except.bind]
    | true =>
      have hin : ∀ ids, ∃ b, inIds (paramOf params "discrepancy_id") ids = .ok b ∧
          (b = true ↔ ∃ id ∈ ids, paramOf params "discrepancy_id" = .str id) :=
          fun ids => inIds_of_hashable hhash
      obtain ⟨openAfter, hopen, hmem⟩ := hin (sortedTexts ((seen d).map Discrepancy.id))
      refine forward_iff (r := !openAfter) ?_ ⟨⟨d, hstore⟩, hhash⟩ ?_
      · cases before with
        | none => simp [targetResolved, capture, hstore, Except.toOption, hopen, bind, Except.bind]
        | some b =>
          obtain ⟨openBefore, hbefore, -⟩ := hin ((capture lib b).openDiscrepancyIds.getD [])
          simp [targetResolved, capture, hstore, Except.toOption, hopen, bind, Except.bind]
            at hbefore ⊢
          simp [hbefore]
      · rw [Bool.not_eq_true', ← Bool.not_eq_true, hmem]
        refine not_congr ⟨?_, ?_⟩
        · rintro ⟨id, hid, hparam⟩
          obtain ⟨r, hr, rfl⟩ := List.mem_map.mp (mem_sortedTexts.mp hid)
          exact ⟨d, hstore, r, hr, hparam⟩
        · rintro ⟨d', hd', r, hr, hparam⟩
          obtain rfl := Except.ok.inj (hstore.symm.trans hd')
          exact ⟨r.id, mem_sortedTexts.mpr (List.mem_map_of_mem hr), hparam⟩

/-- **The forward check** is a check of what is seen. -/
theorem targetResolved_iff :
    (∃ detail, targetResolved lib action params (before.map (capture lib)) (capture lib after) =
      .ok (some resolved, detail)) ↔
      Judged action params after ∧ (resolved = true ↔ ¬TargetSeen lib action params after) := by
  cases action with
  | requeueWake => exact requeue_resolved
  | quarantineWake => exact quarantine_resolved
  | reanchorChain => exact reanchor_resolved
  | resolveDiscrepancy => exact resolve_resolved

/-! ## The verdict -/

variable {snapBefore : Option Snapshot} {snapAfter : Snapshot} {b a : DiscrepancyStore}
  {source : Sources}

/-- **Verified**: the target is not seen, and no new fingerprint. -/
theorem verified_iff : (∃ o, computeVerdict lib action params snapBefore snapAfter = .ok o ∧
    o.verdict = .verified) ↔
    (∃ detail, targetResolved lib action params snapBefore snapAfter = .ok (some true, detail)) ∧
      newDiscrepancies snapBefore snapAfter = ([], true) := by
  unfold computeVerdict
  obtain ⟨new, assessed⟩ := newDiscrepancies snapBefore snapAfter
  cases htarget : targetResolved lib action params snapBefore snapAfter with
  | error e => simp [bind, Except.bind]
  | ok r =>
    obtain ⟨resolved, detail⟩ := r
    cases resolved with
    | none => simp [bind, Except.bind]
    | some resolved => cases assessed <;> cases new <;> cases resolved <;> simp [bind, Except.bind]

/-- **Regressed**: a new fingerprint, where the target can be judged. -/
theorem regressed_iff : (∃ o, computeVerdict lib action params snapBefore snapAfter = .ok o ∧
    o.verdict = .regressed) ↔
    (∃ resolved detail, targetResolved lib action params snapBefore snapAfter =
      .ok (some resolved, detail)) ∧
      (newDiscrepancies snapBefore snapAfter).2 = true ∧
      (newDiscrepancies snapBefore snapAfter).1 ≠ [] := by
  unfold computeVerdict
  obtain ⟨new, assessed⟩ := newDiscrepancies snapBefore snapAfter
  cases htarget : targetResolved lib action params snapBefore snapAfter with
  | error e => simp [bind, Except.bind]
  | ok r =>
    obtain ⟨resolved, detail⟩ := r
    cases resolved with
    | none => simp [bind, Except.bind]
    | some resolved => cases assessed <;> cases new <;> cases resolved <;> simp [bind, Except.bind]

/-- A discrepancy that is seen afterwards has a fingerprint that is not seen before. -/
def SeenNew (b a : DiscrepancyStore) : Prop :=
  ∃ d ∈ seen a, ∀ e ∈ seen b, e.fingerprint ≠ d.fingerprint

theorem newDiscrepancies_of_read (hb : source.discrepancies = .ok b)
    (ha : after.discrepancies = .ok a) :
    ∃ new, newDiscrepancies (some (capture lib source)) (capture lib after) = (new, true) ∧
    (new = [] ↔ ¬SeenNew b a) := by
  have hnew : newDiscrepancies (some (capture lib source)) (capture lib after) =
      (sortedTexts ((sortedTexts ((seen a).map Discrepancy.fingerprint)).dedup.filter
        fun fp => fp ∉ sortedTexts ((seen b).map Discrepancy.fingerprint)), true) := by
    simp [newDiscrepancies, capture, hb, ha, Except.toOption]
  refine ⟨_, hnew, ?_⟩
  rw [sortedTexts_eq_nil, List.filter_eq_nil_iff]
  simp only [List.mem_dedup, mem_sortedTexts, List.mem_map, decide_eq_true_eq, not_not, SeenNew,
    not_exists, not_and, not_forall]
  constructor
  · intro h d hd
    obtain ⟨e, he, heq⟩ := h _ ⟨d, hd, rfl⟩
    exact ⟨e, he, heq⟩
  · rintro h _ ⟨d, hd, rfl⟩
    obtain ⟨e, he, heq⟩ := h d hd
    exact ⟨e, he, heq⟩

theorem newDiscrepancies_assessed :
    (newDiscrepancies (before.map (capture lib)) (capture lib after)).2 = true ↔
    ∃ source ∈ before, ∃ b a, source.discrepancies = .ok b ∧ after.discrepancies = .ok a := by
  cases before with
  | none => simp [newDiscrepancies]
  | some source =>
    cases hb : source.discrepancies <;> cases ha : after.discrepancies <;>
      simp [newDiscrepancies, capture, hb, ha, Except.toOption]

/-! ## What the snapshots leave out -/

/-- The row is the one that the plan is to resolve. -/
def IsTarget (action : Action) (params : Dict) (d : Discrepancy) : Prop :=
  action = .resolveDiscrepancy ∧ paramOf params "discrepancy_id" = .str d.id

/-- All looks well, and an open row that is left out afterwards is the target or has a fingerprint
that was not open. -/
def Hidden (lib : VerifyLib) (action : Action) (params : Dict) (after : Sources)
    (b a : DiscrepancyStore) : Prop :=
  ¬SeenNew b a ∧ ¬TargetSeen lib action params after ∧
    ∃ d ∈ a.omitted .opened, IsTarget action params d ∨ ∀ e ∈ b.having .opened,
    e.fingerprint ≠ d.fingerprint

/-- What looks new is the fingerprint of a row that was left out before, and all that is open was
open. -/
def Surfaced (b a : DiscrepancyStore) : Prop :=
  (∃ d ∈ seen a, (∀ e ∈ seen b, e.fingerprint ≠ d.fingerprint) ∧ ∃ e ∈ b.omitted .opened,
    e.fingerprint = d.fingerprint) ∧
    ∀ d ∈ a.having .opened, ∃ e ∈ b.having .opened, e.fingerprint = d.fingerprint

/-- The rows that the snapshots leave out make no difference. -/
def NothingHidden (lib : VerifyLib) (action : Action) (params : Dict) (before : Option Sources)
    (after : Sources) : Prop :=
  ∀ source ∈ before, ∀ b a, source.discrepancies = .ok b → after.discrepancies = .ok a →
    Judged action params after → ¬Hidden lib action params after b a ∧ ¬Surfaced b a

/-- A verdict is true of the stores. -/
def VerdictTrue (lib : VerifyLib) (action : Action) (params : Dict) (before : Option Sources)
    (after : Sources) (verdict : Verdict) : Prop :=
  (verdict = .verified → ¬TargetHolds lib action params after ∧ ∀ fp, IsOpen after fp →
    ∃ source ∈ before, IsOpen source fp) ∧
    (verdict = .regressed → ∃ fp, IsOpen after fp ∧ ∀ source ∈ before, ¬IsOpen source fp)

theorem isOpen_iff {fp : Str} (h : source.discrepancies = .ok b) :
    IsOpen source fp ↔ ∃ d ∈ b.having .opened, d.fingerprint = fp := by
  simp [IsOpen, h]

/-- The target is seen, or left out. -/
theorem targetHolds_iff (h : after.discrepancies = .ok a) : TargetHolds lib action params after ↔
    TargetSeen lib action params after ∨ ∃ d ∈ a.omitted .opened, IsTarget action params d := by
  cases action with
  | resolveDiscrepancy =>
    simp only [TargetHolds, TargetSeen, h, IsTarget, Except.ok.injEq, exists_eq_left', true_and,
      mem_having_iff, seen]
    constructor
    · rintro ⟨d, hd | hd, hparam⟩
      · exact .inl ⟨d, hd, hparam⟩
      · exact .inr ⟨d, hd, hparam⟩
    · rintro (⟨d, hd, hparam⟩ | ⟨d, hd, hparam⟩)
      · exact ⟨d, .inl hd, hparam⟩
      · exact ⟨d, .inr hd, hparam⟩
  | requeueWake | quarantineWake | reanchorChain => simp [TargetSeen, IsTarget]

/-- Where all looks well, it is well if nothing is hidden. -/
theorem not_hidden_iff (hb : source.discrepancies = .ok b) (ha : after.discrepancies = .ok a) :
    ¬Hidden lib action params after b a ↔ (¬TargetSeen lib action params after ∧ ¬SeenNew b a →
      ¬TargetHolds lib action params after ∧ ∀ fp, IsOpen after fp → IsOpen source fp) := by
  have hseen : ∀ d ∈ seen a, ¬SeenNew b a → ∃ e ∈ b.having .opened,
      e.fingerprint = d.fingerprint := by
    intro d hd hnew
    by_contra hnone
    refine hnew ⟨d, hd, fun e he heq => hnone ⟨e, mem_having_iff.mpr (.inl he), heq⟩⟩
  rw [targetHolds_iff ha]
  constructor
  · rintro hhidden ⟨htarget, hnew⟩
    refine ⟨?_, fun fp hfp => ?_⟩
    · rintro (hholds | ⟨d, hd, hisTarget⟩)
      · exact htarget hholds
      · exact hhidden ⟨hnew, htarget, d, hd, .inl hisTarget⟩
    · rw [isOpen_iff hb]
      obtain ⟨d, hd, rfl⟩ := (isOpen_iff ha).mp hfp
      rcases mem_having_iff.mp hd with hd | hd
      · exact hseen d hd hnew
      · by_contra hnone
        exact hhidden ⟨hnew, htarget, d, hd, .inr fun e he heq => hnone ⟨e, he, heq⟩⟩
  · rintro h ⟨hnew, htarget, d, hd, hisTarget | hfresh⟩
    · exact (h ⟨htarget, hnew⟩).1 (.inr ⟨d, hd, hisTarget⟩)
    · have hopen : IsOpen after d.fingerprint :=
        (isOpen_iff ha).mpr ⟨d, mem_having_iff.mpr (.inr hd), rfl⟩
      obtain ⟨e, he, heq⟩ := (isOpen_iff hb).mp ((h ⟨htarget, hnew⟩).2 _ hopen)
      exact hfresh e he heq

/-- Where something looks new, it is new if nothing has surfaced. -/
theorem not_surfaced_iff (hb : source.discrepancies = .ok b) (ha : after.discrepancies = .ok a) :
    ¬Surfaced b a ↔ (SeenNew b a → ∃ fp, IsOpen after fp ∧ ¬IsOpen source fp) := by
  simp only [isOpen_iff hb, isOpen_iff ha]
  constructor
  · rintro hsurfaced ⟨d, hd, hfresh⟩
    by_contra hnone
    have hknown : ∀ r ∈ a.having .opened, ∃ e ∈ b.having .opened,
        e.fingerprint = r.fingerprint := by
      intro r hr
      by_contra hr'
      exact hnone ⟨r.fingerprint, ⟨r, hr, rfl⟩, hr'⟩
    obtain ⟨e, he, heq⟩ := hknown d (mem_having_iff.mpr (.inl hd))
    -- a row with the fingerprint was open, and it was not seen
    have homitted := (mem_having_iff.mp he).resolve_left fun hin => hfresh e hin heq
    exact hsurfaced ⟨⟨d, hd, hfresh, e, homitted, heq⟩, hknown⟩
  · rintro h ⟨⟨d, hd, hfresh, -⟩, hknown⟩
    obtain ⟨fp, ⟨r, hr, rfl⟩, hnone⟩ := h ⟨d, hd, hfresh⟩
    exact hnone (hknown r hr)

/-- The target can be judged where the forward check says something. -/
theorem judged_iff :
    (∃ resolved detail, targetResolved lib action params (before.map (capture lib))
      (capture lib after) =
    .ok (some resolved, detail)) ↔ Judged action params after := by
  simp only [targetResolved_iff]
  constructor
  · rintro ⟨_, hjudged, -⟩
    exact hjudged
  · intro hjudged
    by_cases htarget : TargetSeen lib action params after
    · exact ⟨false, hjudged, by simp [htarget]⟩
    · exact ⟨true, hjudged, by simp [htarget]⟩

/-- Where the stores are not read, before or after, nothing is verified and nothing has regressed.
-/
theorem verdict_of_unread (h : ¬∃ source ∈ before, ∃ b a, source.discrepancies = .ok b ∧
    after.discrepancies = .ok a) {o : Outcome}
    (ho : computeVerdict lib action params (before.map (capture lib)) (capture lib after) = .ok o) :
    o.verdict ≠ .verified ∧ o.verdict ≠ .regressed := by
  have hnot : ¬(newDiscrepancies (before.map (capture lib)) (capture lib after)).2 = true :=
    mt newDiscrepancies_assessed.mp h
  refine ⟨fun hv => ?_, fun hv => ?_⟩
  · have hnew := (verified_iff.mp ⟨o, ho, hv⟩).2
    exact hnot (by rw [hnew])
  · exact hnot (regressed_iff.mp ⟨o, ho, hv⟩).2.1

/-- **When a verdict is true of the stores**: exactly where the rows that the snapshots leave out
make no difference. -/
theorem verdictTrue_iff :
    (∀ o, computeVerdict lib action params (before.map (capture lib)) (capture lib after) = .ok o →
      VerdictTrue lib action params before after o.verdict) ↔
      NothingHidden lib action params before after := by
  by_cases hread : ∃ source ∈ before, ∃ b a, source.discrepancies = .ok b ∧
    after.discrepancies = .ok a
  · obtain ⟨source, hsource, b, a, hb, ha⟩ := hread
    obtain rfl := Option.mem_def.mp hsource
    obtain ⟨new, hnew, hnil⟩ : ∃ new, newDiscrepancies (some (capture lib source))
      (capture lib after) = (new, true) ∧
        (new = [] ↔ ¬SeenNew b a) := newDiscrepancies_of_read hb ha
    have hverified :
      (∃ o, computeVerdict lib action params (some (capture lib source))
        (capture lib after) = .ok o ∧
        o.verdict = .verified) ↔ Judged action params after ∧ ¬TargetSeen lib action params after ∧
        ¬SeenNew b a := by
      rw [verified_iff, hnew, ← hnil, ← Option.map_some, targetResolved_iff]
      simp [and_assoc]
    have hregressed :
      (∃ o, computeVerdict lib action params (some (capture lib source))
        (capture lib after) = .ok o ∧
        o.verdict = .regressed) ↔ Judged action params after ∧ SeenNew b a := by
      rw [regressed_iff, hnew, ← Option.map_some, judged_iff, ← not_not (a := SeenNew b a), ← hnil]
      simp
    constructor
    · intro htrue source' hsource' b' a' hb' ha' hjudged
      obtain rfl := Option.some.inj (Option.mem_def.mp hsource')
      obtain rfl := Except.ok.inj (hb.symm.trans hb')
      obtain rfl := Except.ok.inj (ha.symm.trans ha')
      refine ⟨(not_hidden_iff hb ha).mpr ?_, (not_surfaced_iff hb ha).mpr ?_⟩
      · rintro ⟨htarget, hnone⟩
        obtain ⟨o, ho, hv⟩ := hverified.mpr ⟨hjudged, htarget, hnone⟩
        obtain ⟨hgone, hopen⟩ := (htrue o ho).1 hv
        exact ⟨hgone, fun fp hfp => by simpa using hopen fp hfp⟩
      · intro hseen
        obtain ⟨o, ho, hv⟩ := hregressed.mpr ⟨hjudged, hseen⟩
        simpa using (htrue o ho).2 hv
    · intro hnothing o ho
      refine ⟨fun hv => ?_, fun hv => ?_⟩
      · obtain ⟨hjudged, hwell⟩ := hverified.mp ⟨o, ho, hv⟩
        obtain ⟨hgone, hopen⟩ :=
          (not_hidden_iff hb ha).mp (hnothing source hsource b a hb ha hjudged).1 hwell
        exact ⟨hgone, fun fp hfp => ⟨source, hsource, hopen fp hfp⟩⟩
      · obtain ⟨hjudged, hseen⟩ := hregressed.mp ⟨o, ho, hv⟩
        simpa using (not_surfaced_iff hb ha).mp (hnothing source hsource b a hb ha hjudged).2 hseen
  · refine iff_of_true (fun o ho => ?_) fun source hsource b a hb ha =>
      absurd ⟨source, hsource, b, a, hb, ha⟩ hread
    obtain ⟨hverified, hregressed⟩ := verdict_of_unread hread ho
    exact ⟨fun hv => absurd hv hverified, fun hv => absurd hv hregressed⟩

end

/-! ## The loop -/

/-- What the engine reports is the verdict, for a plan that was executed. -/
theorem verifyRepair_eq_ok {lib : VerifyLib} {plans : RepairStore} {stamp : VerificationStamp}
    {planId : Str} {plan : RepairPlan}
    {before : Option Snapshot} {after : Sources} (hget : plans.get planId = .ok plan)
    (hstatus : plan.status ∈ verifiable)
    {o : Outcome} : (∃ report, verifyRepair lib plans stamp planId before after = .ok report ∧
      report.outcome = o) ↔
      computeVerdict lib plan.action plan.params before (capture lib after) = .ok o := by
  unfold verifyRepair raiseIf
  rw [hget]
  cases hverdict : computeVerdict lib plan.action plan.params before (capture lib after) <;>
    simp [hverdict, hstatus, bind, Except.bind]

/-- An id that is empty is refused, and the plan has failed. -/
theorem executeResolve_of_nil {lib : Texts} {g : Gate} {plans : RepairStore} {s : DiscrepancyStore}
    {plan : RepairPlan}
    {planId operator : Str} (hget : plans.get planId = .ok plan) (hexec : executable plan = true)
    (hopens : g.opens = true)
    (hparam : getItem plan.params (lit "discrepancy_id") = some (.str [])) :
    ∃ executed, (executeResolve lib g plans s planId operator).1 = .ok executed ∧
        executed.status = .failed := by
  obtain ⟨⟨reason, htrust⟩, harmed⟩ := Gate.trusted hopens
  have happly : ∃ e, (resolveAttempt lib g plan.params s).apply = .error e :=
    ⟨_, by simp [resolveAttempt, applyResolveDiscrepancy, hparam, truthy]; rfl⟩
  obtain ⟨e, happly⟩ := happly
  have hverdict : (resolveAttempt lib g plan.params s).verdict lib planId operator =
      .ok (⟨planId, .failed, some (lib.message e), none⟩,
        ⟨.failed, operator, lib.message e, []⟩) := by
    unfold Attempt.verdict
    rw [happly]
    simp [resolveAttempt, htrust, harmed]
  refine ⟨⟨planId, .failed, some (lib.message e), none⟩, ?_, rfl⟩
  simp only [executeResolve, hget, execute_of_executable hget hexec, hverdict]

/-- **The closed loop.** A verdict on a repair is true of the stores exactly where the rows that the
snapshots leave out make no difference; and a plan to resolve a discrepancy completes exactly where
the id is not empty and fewer than a hundred of the rows that are resolved come before the row. -/
theorem closed_loop_law (lib : VerifyLib) (texts : Texts) :
    (∀ (plans : RepairStore) (planId : Str) (plan : RepairPlan) (stamp : VerificationStamp)
      (before : Option Sources)
      (after : Sources), plans.get planId = .ok plan → plan.status ∈ verifiable →
      ((∀ report, verifyRepair lib plans stamp planId (before.map (capture lib)) after =
        .ok report → VerdictTrue lib plan.action plan.params before after report.outcome.verdict) ↔
        NothingHidden lib plan.action plan.params before after)) ∧
    ∀ (g : Gate) (plans : RepairStore) (s : DiscrepancyStore) (planId operator : Str)
      (plan : RepairPlan)
      (earlier later : List Discrepancy) (d : Discrepancy), plans.get planId = .ok plan →
      plan.action = .resolveDiscrepancy →
      executable plan = true → g.opens = true → getItem plan.params (lit "discrepancy_id") =
        some (.str d.id) →
      s.rows = earlier ++ d :: later →
      ((∃ executed, (executeResolve texts g plans s planId operator).1 = .ok executed ∧
        executed.status = .completed) ↔ d.id ≠ [] ∧ resolvedAhead earlier d later < 100) := by
  refine ⟨?_, ?_⟩
  · intro plans planId plan stamp before after hget hstatus
    rw [← verdictTrue_iff]
    constructor
    · intro h o ho
      obtain ⟨report, hreport, rfl⟩ := (verifyRepair_eq_ok hget hstatus).mpr ho
      exact h report hreport
    · intro h report hreport
      exact h report.outcome ((verifyRepair_eq_ok hget hstatus).mp ⟨report, hreport, rfl⟩)
  · intro g plans s planId operator plan earlier later d hget _ hexec hopens hparam hrows
    by_cases hid : d.id = []
    · obtain ⟨executed, hexecuted, hfailed⟩ : ∃ executed,
        (executeResolve texts g plans s planId operator).1 = .ok executed ∧
          executed.status = .failed := executeResolve_of_nil hget hexec hopens (hid ▸ hparam)
      simp [hid, hexecuted, hfailed]
    · obtain ⟨executed, hexecuted, hcase⟩ : ∃ executed,
          (executeResolve texts g plans s planId operator).1 = .ok executed ∧ _ :=
        executeResolve_status hget hexec hopens hparam hid hrows
      rcases hcase with ⟨hfew, hcompleted, -⟩ | ⟨hmany, hrolled, -⟩
      · simp [hid, hexecuted, hcompleted, hfew]
      · simp [hid, hexecuted, hrolled, hmany]

/-! ## A store with more rows than a query returns -/

/-- A discrepancy from the first of the year. -/
def oldRow : Discrepancy where
  id := lit "disc-old"
  timestamp := lit "2026-01-01T00:00:00+00:00"
  subsystem := lit "wake"
  expectedState := lit "messages answered"
  observedState := lit "messages failed"
  discrepancyType := lit "failed_messages"
  severity := lit "warn"
  evidence := .dict []
  confidence := .finite ⟨false, 2 ^ 52, -52, by decide⟩
  affectedResource := lit "wake_inbox"
  suggestedAction := lit "requeue"
  status := .opened
  lastSeen := lit "2026-01-01T00:00:00+00:00"

/-- Rows of the next month, of another resource. Each id is longer than the one before. -/
def newRows (name : String) (status : DiscrepancyStatus) : List Discrepancy :=
  (List.range 100).map fun n => { oldRow with
    id := lit name ++ List.replicate n 0x2b
    timestamp := lit "2026-02-01T00:00:00+00:00"
    affectedResource := lit "wake_outbox"
    status := status }

theorem newRows_ids_nodup (name : String) (status : DiscrepancyStatus) :
    ((newRows name status).map Discrepancy.id).Nodup := by
  rw [newRows, List.map_map]
  refine List.nodup_range.map fun m n h => ?_
  have hlength :=
    congrArg List.length
    (show lit name ++ List.replicate m 0x2b = lit name ++ List.replicate n 0x2b from h)
  simpa using hlength

/-- The first letter of an id is that of the name. -/
theorem newRows_head {name : String} {status : DiscrepancyStatus} {c : CodePoint}
    (hname : (lit name).head? = some c) {id : Str}
    (h : id ∈ (newRows name status).map Discrepancy.id) : id.head? = some c := by
  rw [newRows, List.map_map] at h
  obtain ⟨n, -, rfl⟩ := List.mem_map.mp h
  show (lit name ++ List.replicate n 0x2b).head? = some c
  rw [List.head?_append, hname]
  rfl

/-- Rows of names with other first letters have other ids. -/
theorem newRows_apart {name : String} {status : DiscrepancyStatus} {c d : CodePoint}
    (hname : (lit name).head? = some c) {id : Str}
    (hid : id.head? = some d) (hne : c ≠ d) : id ∉ (newRows name status).map Discrepancy.id :=
    fun h =>
  hne (Option.some.inj ((newRows_head hname h).symm.trans hid))

def crowded : DiscrepancyStore where
  rows := oldRow :: (newRows "resolved-" .resolved ++ newRows "open-" .opened)
  unique := by
    rw [Keyed.Unique, List.map_cons, List.map_append, List.nodup_cons, List.nodup_append',
      List.mem_append, not_or]
    refine ⟨⟨newRows_apart rfl rfl (by decide), newRows_apart rfl rfl (by decide)⟩,
      newRows_ids_nodup _ _, newRows_ids_nodup _ _, ?_⟩
    exact fun id hresolved => newRows_apart rfl (newRows_head rfl hresolved) (by decide)

/-- The rows of the next month are resolved. -/
def cleared : DiscrepancyStore where
  rows := oldRow :: newRows "resolved-" .resolved
  unique := by
    rw [Keyed.Unique, List.map_cons, List.nodup_cons]
    exact ⟨newRows_apart rfl rfl (by decide), newRows_ids_nodup _ _⟩

def holding (s : DiscrepancyStore) : Sources :=
  ⟨lit "2026-02-02T00:00:00+00:00", .ok s, .ok [], none⟩

def plainLib : VerifyLib := ⟨fun c => 0x61 ≤ c.val && c.val ≤ 0x7a, fun _ => lit "?"⟩

def plainTexts : Texts := ⟨fun _ => lit "?", fun _ => lit "?", fun _ => lit "?"⟩

def trustingGate : Gate :=
  ⟨.ok (true, []), false, lit "2026-02-02T00:00:00+00:00", lit "2026-02-02T00:00:01+00:00", fun _ =>
    .error .typeError⟩

def resolvePlan (status : PlanStatus) : RepairPlan :=
  { finalizePlan ⟨lit "plan-1", lit "2026-02-02T00:00:00+00:00"⟩
      ⟨.resolveDiscrepancy, dictOf [("discrepancy_id", .str oldRow.id)], []⟩ with status := status }

def requeuePlan : RepairPlan :=
  { finalizePlan ⟨lit "plan-1", lit "2026-02-02T00:00:00+00:00"⟩
      ⟨.requeueWake, dictOf [("provider", .str (lit "ollama"))], []⟩ with status := .completed }

def storeOf (plan : RepairPlan) : RepairStore := ⟨[plan], List.nodup_singleton _⟩

theorem get_storeOf (plan : RepairPlan) : (storeOf plan).get plan.planId = .ok plan :=
  get_eq_ok.mpr ⟨List.mem_singleton_self _, rfl⟩

section

variable {r : Discrepancy} {name : String} {status : DiscrepancyStatus}

theorem mem_newRows (h : r ∈ newRows name status) :
    r.timestamp = lit "2026-02-01T00:00:00+00:00" ∧ r.status = status ∧
    r.fingerprint ≠ oldRow.fingerprint := by
  obtain ⟨n, -, rfl⟩ := List.mem_map.mp h
  have hother : { oldRow with affectedResource := lit "wake_outbox" }.fingerprint ≠
    oldRow.fingerprint := by decide
  exact ⟨rfl, rfl, hother⟩

/-- The old row comes after all the others. -/
theorem old_before_new (h : r ∈ newRows name status) : oldRow.timestamp < r.timestamp := by
  rw [(mem_newRows h).1]
  decide

theorem newRows_filter {p : Discrepancy → Bool} (h : ∀ r ∈ newRows name status, p r = true) :
    ((newRows name status).filter p).length = 100 := by
  rw [List.filter_eq_self.mpr h, newRows, List.length_map, List.length_range]

theorem newRows_filter_nil {p : Discrepancy → Bool} (h : ∀ r ∈ newRows name status, p r = false) :
    (newRows name status).filter p = [] := List.filter_eq_nil_iff.mpr fun r hr => by simp [h r hr]

theorem having_crowded : crowded.having .opened = oldRow :: newRows "open-" .opened := by
  rw [DiscrepancyStore.having, crowded, List.filter_cons_of_pos (by rfl), List.filter_append,
    newRows_filter_nil fun r hr => by simp [(mem_newRows hr).2.1], List.nil_append,
    List.filter_eq_self.mpr fun r hr => by simp [(mem_newRows hr).2.1]]

theorem having_cleared : cleared.having .opened = [oldRow] := by
  rw [DiscrepancyStore.having, cleared, List.filter_cons_of_pos (by rfl),
    newRows_filter_nil fun r hr => by simp [(mem_newRows hr).2.1]]

/-- The old row is open, and no snapshot sees it. -/
theorem seen_crowded (h : r ∈ seen crowded) : r ∈ newRows "open-" .opened := by
  have hmem := mem_having_iff.mpr (.inl h)
  rw [having_crowded] at hmem
  refine (List.mem_cons.mp hmem).resolve_left ?_
  rintro rfl
  have hold : oldRow ∉ newRows "open-" .opened := fun hold => lt_irrefl _ (old_before_new hold)
  rw [seen, query_status, having_crowded] at h
  have hahead :
      oldRow ∈ (ranked Discrepancy.timestamp ([] ++ oldRow :: newRows "open-" .opened)).take 100 ↔
      _ :=
    mem_take_ranked_middle List.not_mem_nil hold
  rw [newRows_filter] at hahead
  · simpa using hahead.mp h
  · exact fun r hr => by simpa using old_before_new hr

theorem seen_cleared : seen cleared = [oldRow] := by
  rw [seen, query_status, having_cleared, ranked, List.mergeSort_singleton]
  rfl

theorem crowded_resolvedAhead :
    resolvedAhead [] oldRow (newRows "resolved-" .resolved ++ newRows "open-" .opened) = 100 := by
  unfold resolvedAhead
  rw [List.filter_append, List.length_append, newRows_filter, newRows_filter_nil]
  · rfl
  · exact fun r hr => by simp [(mem_newRows hr).2.1]
  · exact fun r hr => decide_eq_true ⟨(mem_newRows hr).2.1, old_before_new hr⟩

theorem crowded_rows :
    crowded.rows = [] ++ oldRow :: (newRows "resolved-" .resolved ++ newRows "open-" .opened) := rfl

theorem resolvePlan_param (status : PlanStatus) :
    getItem (resolvePlan status).params (lit "discrepancy_id") = some (.str oldRow.id) := by
  show (List.find? _ [(PyKey.str (lit "discrepancy_id"), PyVal.str oldRow.id)]).map Prod.snd = _
  rw [List.find?_cons_of_pos (by simp)]
  rfl

theorem targetHolds_crowded : TargetHolds plainLib .resolveDiscrepancy
    (resolvePlan .rolledBack).params (holding crowded) := by
  refine ⟨crowded, rfl, oldRow, ?_, ?_⟩
  · rw [having_crowded]
    exact List.mem_cons_self
  · rw [paramOf, resolvePlan_param, Option.getD_some]

end

/-- None of the rows of the next month is resolved. -/
def roomy : DiscrepancyStore where
  rows := oldRow :: newRows "open-" .opened
  unique := by
    rw [Keyed.Unique, List.map_cons, List.nodup_cons]
    exact ⟨newRows_apart rfl rfl (by decide), newRows_ids_nodup _ _⟩

theorem roomy_resolvedAhead : resolvedAhead [] oldRow (newRows "open-" .opened) = 0 := by
  unfold resolvedAhead
  rw [newRows_filter_nil]
  · rfl
  · exact fun r hr => by simp [(mem_newRows hr).2.1]

theorem omitted_cleared : cleared.omitted .opened = [] := by
  rw [DiscrepancyStore.omitted, having_cleared, ranked, List.mergeSort_singleton]
  rfl

theorem nothingHidden_cleared : NothingHidden plainLib .requeueWake requeuePlan.params
    (some (holding cleared)) (holding cleared) := by
  intro source hsource b a hb ha _
  obtain rfl := Option.some.inj hsource
  obtain rfl := Except.ok.inj hb
  obtain rfl := Except.ok.inj ha
  constructor
  · rintro ⟨-, -, d, hd, -⟩
    rw [omitted_cleared] at hd
    cases hd
  · rintro ⟨⟨d, -, -, e, he, -⟩, -⟩
    rw [omitted_cleared] at he
    cases he

/-- With a hundred rows before the old one both equivalences are about what fails; with fewer, a
verdict is true and the plan completes. -/
theorem closed_loop_law_crowded :
    ((∀ report, verifyRepair plainLib (storeOf requeuePlan) ⟨lit "ver-2", lit "now"⟩ (lit "plan-1")
          ((some (holding crowded)).map (capture plainLib)) (holding cleared) = .ok report →
        VerdictTrue plainLib .requeueWake requeuePlan.params (some (holding crowded))
          (holding cleared) report.outcome.verdict) ↔
      NothingHidden plainLib .requeueWake requeuePlan.params (some (holding crowded))
        (holding cleared)) ∧
    ((∃ executed, (executeResolve plainTexts trustingGate (storeOf (resolvePlan .approved)) crowded
        (lit "plan-1") (lit "op")).1 = .ok executed ∧ executed.status = .completed) ↔
      oldRow.id ≠ [] ∧
        resolvedAhead [] oldRow (newRows "resolved-" .resolved ++ newRows "open-" .opened) < 100) ∧
    (∀ report, verifyRepair plainLib (storeOf requeuePlan) ⟨lit "ver-2", lit "now"⟩ (lit "plan-1")
          ((some (holding cleared)).map (capture plainLib)) (holding cleared) = .ok report →
        VerdictTrue plainLib .requeueWake requeuePlan.params (some (holding cleared))
          (holding cleared) report.outcome.verdict) ∧
    ∃ executed, (executeResolve plainTexts trustingGate (storeOf (resolvePlan .approved)) roomy
        (lit "plan-1") (lit "op")).1 = .ok executed ∧ executed.status = .completed := by
  obtain ⟨hverdicts, hresolves⟩ := closed_loop_law plainLib plainTexts
  refine ⟨?_, ?_, ?_, ?_⟩
  · exact hverdicts (storeOf requeuePlan) (lit "plan-1") requeuePlan _ (some (holding crowded))
      (holding cleared) (get_storeOf requeuePlan) (by decide)
  · exact hresolves trustingGate (storeOf (resolvePlan .approved)) crowded (lit "plan-1") (lit "op")
      (resolvePlan .approved) [] _ oldRow (get_storeOf (resolvePlan .approved)) rfl rfl rfl
      (resolvePlan_param .approved) crowded_rows
  · exact (hverdicts (storeOf requeuePlan) (lit "plan-1") requeuePlan _ (some (holding cleared))
      (holding cleared) (get_storeOf requeuePlan) (by decide)).mpr nothingHidden_cleared
  · refine (hresolves trustingGate (storeOf (resolvePlan .approved)) roomy (lit "plan-1") (lit "op")
      (resolvePlan .approved) [] _ oldRow (get_storeOf (resolvePlan .approved)) rfl rfl rfl
      (resolvePlan_param .approved) rfl).mpr ⟨by decide, ?_⟩
    rw [roomy_resolvedAhead]
    decide

/-- The old row is there, and the plan to resolve it is rolled back; a verification then reports
that the row, which is open, is not. And once the others are resolved, a verification reports the
old row as new. -/
theorem old_row_out_of_sight :
    (∃ executed,
      (executeResolve plainTexts trustingGate (storeOf (resolvePlan .approved)) crowded
        (lit "plan-1") (lit "op")).1 = .ok executed ∧ executed.status = .rolledBack) ∧
      (∃ report, verifyRepair plainLib (storeOf (resolvePlan .rolledBack)) ⟨lit "ver-1", lit "now"⟩
          (lit "plan-1") (some (capture plainLib (holding crowded))) (holding crowded) =
            .ok report ∧
        report.outcome.verdict = .verified ∧
        TargetHolds plainLib .resolveDiscrepancy (resolvePlan .rolledBack).params
          (holding crowded)) ∧
      ∃ report, verifyRepair plainLib (storeOf requeuePlan) ⟨lit "ver-2", lit "now"⟩ (lit "plan-1")
          (some (capture plainLib (holding crowded))) (holding cleared) = .ok report ∧
          report.outcome.verdict = .regressed ∧
        ∀ fp, IsOpen (holding cleared) fp → IsOpen (holding crowded) fp := by
  refine ⟨?_, ?_, ?_⟩
  · obtain ⟨executed, hexecuted, hcase⟩ : ∃ executed,
        (executeResolve plainTexts trustingGate (storeOf (resolvePlan .approved)) crowded
          (lit "plan-1") (lit "op")).1 = .ok executed ∧ _ :=
      executeResolve_status (get_storeOf (resolvePlan .approved)) rfl rfl
        (resolvePlan_param .approved) (by decide) crowded_rows
    rw [crowded_resolvedAhead] at hcase
    exact ⟨executed, hexecuted, (hcase.resolve_left fun h => absurd h.1 (lt_irrefl 100)).2.1⟩
  · -- the newer rows hide the target from both scans, which counts as resolved
    have hunseen : ¬TargetSeen plainLib .resolveDiscrepancy (resolvePlan .rolledBack).params
        (holding crowded) := by
      rintro ⟨s, hs, r, hr, hparam⟩
      obtain rfl := Except.ok.inj hs
      rw [paramOf, resolvePlan_param, Option.getD_some] at hparam
      have hmem : oldRow.id ∈ (newRows "open-" .opened).map Discrepancy.id :=
        PyVal.str.inj hparam ▸ List.mem_map_of_mem (seen_crowded hr)
      exact newRows_apart rfl rfl (by decide) hmem
    obtain ⟨new, hnew, hnil⟩ : ∃ new, newDiscrepancies (some (capture plainLib (holding crowded)))
        (capture plainLib (holding crowded)) = (new, true) ∧
          (new = [] ↔ ¬SeenNew crowded crowded) :=
      newDiscrepancies_of_read rfl rfl
    obtain rfl := hnil.mpr fun ⟨d, hd, hfresh⟩ => hfresh d hd rfl
    have hresolved : ∃ detail, targetResolved plainLib .resolveDiscrepancy
        (resolvePlan .rolledBack).params ((some (holding crowded)).map (capture plainLib))
          (capture plainLib (holding crowded)) = .ok (some true, detail) := by
      refine targetResolved_iff.mpr ⟨⟨⟨crowded, rfl⟩, ?_⟩, iff_of_true rfl hunseen⟩
      rw [paramOf, resolvePlan_param]
      rfl
    obtain ⟨o, ho, hv⟩ : ∃ o, computeVerdict plainLib .resolveDiscrepancy
        (resolvePlan .rolledBack).params (some (capture plainLib (holding crowded)))
          (capture plainLib (holding crowded)) = .ok o ∧ o.verdict = .verified :=
      verified_iff.mpr ⟨hresolved, hnew⟩
    obtain ⟨report, hreport, rfl⟩ : ∃ report,
        verifyRepair plainLib (storeOf (resolvePlan .rolledBack)) ⟨lit "ver-1", lit "now"⟩
          (lit "plan-1") (some (capture plainLib (holding crowded))) (holding crowded) =
            .ok report ∧ report.outcome = o :=
      (verifyRepair_eq_ok (get_storeOf (resolvePlan .rolledBack)) (by decide)).mpr ho
    exact ⟨report, hreport, hv, targetHolds_crowded⟩
  · obtain ⟨new, hnew, hnil⟩ : ∃ new, newDiscrepancies (some (capture plainLib (holding crowded)))
        (capture plainLib (holding cleared)) = (new, true) ∧
          (new = [] ↔ ¬SeenNew crowded cleared) :=
      newDiscrepancies_of_read rfl rfl
    -- with the newer rows gone the old one is seen, and counts as new
    have hfresh : SeenNew crowded cleared := by
      refine ⟨oldRow, ?_, fun e he => (mem_newRows (seen_crowded he)).2.2⟩
      rw [seen_cleared]
      exact List.mem_singleton_self _
    have hjudged : ∃ resolved detail, targetResolved plainLib .requeueWake requeuePlan.params
        ((some (holding crowded)).map (capture plainLib)) (capture plainLib (holding cleared)) =
        .ok (some resolved, detail) :=
      judged_iff.mpr ⟨⟨[], rfl⟩, rfl⟩
    obtain ⟨o, ho, hv⟩ : ∃ o, computeVerdict plainLib .requeueWake requeuePlan.params
        (some (capture plainLib (holding crowded))) (capture plainLib (holding cleared)) = .ok o ∧
        o.verdict = .regressed := by
      refine regressed_iff.mpr ⟨hjudged, ?_⟩
      rw [hnew]
      exact ⟨rfl, fun h => hnil.mp h hfresh⟩
    obtain ⟨report, hreport, rfl⟩ : ∃ report,
        verifyRepair plainLib (storeOf requeuePlan) ⟨lit "ver-2", lit "now"⟩ (lit "plan-1")
          (some (capture plainLib (holding crowded))) (holding cleared) = .ok report ∧
            report.outcome = o :=
      (verifyRepair_eq_ok (get_storeOf requeuePlan) (by decide)).mpr ho
    refine ⟨report, hreport, hv, fun fp hfp => ?_⟩
    obtain ⟨d, hd, rfl⟩ := (isOpen_iff rfl).mp hfp
    rw [having_cleared, List.mem_singleton] at hd
    obtain rfl := hd
    refine (isOpen_iff rfl).mpr ⟨oldRow, ?_, rfl⟩
    rw [having_crowded]
    exact List.mem_cons_self

end Ops.Verify
