import Msb.Conversation.ClaimHistory

/-!
# Overlapping calls of the producers

Any number of `produce` calls on one ledger directory, in any interleaving. A call reads the cursor,
then the registry, writes its artifact, then replaces `claims.json`, then the cursor. Nothing keeps
two calls apart, and what a call writes rests on the files as it has read them.

A replacement loses nothing where it finds the file as its call has read it (`Undisturbed`).

* `run_alone` — the steps of one call are `produce`
* `run_recorded` — undisturbed calls leave all of their evidence
-/

namespace Conversation.Overlap

open Py Ledger Machine

/-! ## The steps of a call -/

/-- Where a call is, and what it has read. -/
inductive Stage where
  | cursorRead (processed : List Str)
  | registryRead (processed : List Str) (claims : List ClaimEntry)
  | artifactWritten (processed : List Str) (claims : List ClaimEntry)
  | claimsWritten (processed : List Str)
  | returned
  deriving DecidableEq

/-- What the call has read of the cursor. -/
def Stage.processed : Stage → List Str
  | .cursorRead processed | .registryRead processed _ | .artifactWritten processed _
    | .claimsWritten processed => processed
  | .returned => []

/-- The file that the call replaces next is as the call has read it. -/
def Stage.Finds (dir : LedgerDir) : Stage → Prop
  | .artifactWritten _ claims => dir.claims = claims
  | .claimsWritten processed => dir.processed = processed
  | _ => True

instance instDecidableFinds (dir : LedgerDir) : ∀ stage : Stage, Decidable (stage.Finds dir)
  | .artifactWritten _ claims => inferInstanceAs (Decidable (dir.claims = claims))
  | .claimsWritten processed => inferInstanceAs (Decidable (dir.processed = processed))
  | .cursorRead _ | .registryRead .. | .returned => isTrue trivial

structure Caller where
  prepared : Prepared
  stage : Stage

/-- The files, the calls so far, and every hash that the cursor can hold. -/
structure State where
  dir : LedgerDir
  calls : List Caller
  known : List Str

def State.start (dir : LedgerDir) : State := ⟨dir, [], dir.processed⟩

inductive Event where
  /-- A call for a new record reads the cursor. -/
  | start (producer : Producer) (record : PyVal) (gitHead : Str)
  /-- The call at a position takes its next step. -/
  | next (i : Nat)

/-- One step of a call. -/
def callStep (dir : LedgerDir) (p : Prepared) : Stage → Option (LedgerDir × Stage)
  | .cursorRead processed => some (dir, .registryRead processed dir.claims)
  | .registryRead processed claims =>
    -- a record that the cursor has already is not ingested
    if p.recordHash ∈ processed then some (dir, .returned)
    else some ({ dir with evidence := putArtifact p.artifact dir.evidence },
      .artifactWritten processed claims)
  | .artifactWritten processed claims =>
    some ({ dir with claims := putEntry (claimEntry p (byId claims p.artifact.claimId)) claims },
      .claimsWritten processed)
  | .claimsWritten processed =>
    some ({ dir with processed := sortedSet (processed ++ [p.recordHash]) }, .returned)
  | .returned => none

section

variable (P : Platform) (lib : Texts)

/-- The records are distinct: no call is for a record with a hash that is known. -/
def step (s : State) : Event → Option State
  | .start producer record gitHead =>
    match producer.prepare P lib record gitHead with
    | .error _ => some s
    | .ok p =>
      if p.recordHash ∈ s.known then none
      else some { s with
        calls := s.calls ++ [⟨p, .cursorRead s.dir.processed⟩], known := s.known ++ [p.recordHash] }
  | .next i =>
    match s.calls[i]? with
    | none => none
    | some c => (callStep s.dir c.prepared c.stage).map fun out =>
      { s with dir := out.1, calls := s.calls.set i ⟨c.prepared, out.2⟩ }

end

/-- **A replacement finds the file as its call has read it.** -/
def Undisturbed (s : State) : Event → Prop
  | .start .. => True
  | .next i => ∀ c ∈ s.calls[i]?, c.stage.Finds s.dir

instance instDecidableUndisturbed (s : State) : ∀ e : Event, Decidable (Undisturbed s e)
  | .start .. => isTrue trivial
  | .next i => inferInstanceAs (Decidable (∀ c ∈ s.calls[i]?, c.stage.Finds s.dir))

/-- The registry has the evidence. -/
def Recorded (claims : List ClaimEntry) (p : Prepared) : Prop :=
  ∃ e, byId claims p.artifact.claimId = some e ∧
    p.artifact.evidenceId ∈ e.evidence p.artifact.polarity

/-- Nothing of the record is lost. -/
def Landed (dir : LedgerDir) (p : Prepared) : Prop :=
  Recorded dir.claims p ∧ p.recordHash ∈ dir.processed

/-! ## One call alone -/

section

variable {P : Platform} {lib : Texts} {s t : State} {dir : LedgerDir} {p q : Prepared} {c : Caller}
  {claims : List ClaimEntry}

/-- **The steps of one call are `produce`.** -/
theorem run_alone {producer : Producer} {record : PyVal} {gitHead : Str}
    (hprepare : producer.prepare P lib record gitHead = .ok p)
    (hnew : p.recordHash ∉ dir.processed) :
    ∃ t result, run (step P lib) (.start dir) [.start producer record gitHead, .next 0, .next 0,
      .next 0, .next 0] = some t ∧
      produce P lib producer record dir gitHead false none = .ok (result, t.dir) ∧
      t.calls = [⟨p, .returned⟩] := by
  obtain ⟨result, hingest, -, -⟩ := ingest_of_ingestible ⟨hnew, rfl, .inl rfl⟩
  refine ⟨⟨ingest.next p dir (claimEntry p (byId dir.claims p.artifact.claimId)), [⟨p, .returned⟩],
    dir.processed ++ [p.recordHash]⟩, result, ?_, bind_eq_ok.mpr ⟨p, hprepare, hingest⟩, rfl⟩
  simp [run_cons, step, State.start, hprepare, hnew, callStep, ingest.next]

/-! ## What a replacement keeps -/

theorem recorded_put (h : UniqueClaims claims) :
    Recorded (putEntry (claimEntry p (byId claims p.artifact.claimId)) claims) p := by
  refine ⟨claimEntry p (byId claims p.artifact.claimId), ?_, ?_⟩
  · rw [byId_putEntry h, claimEntry_claimId, if_pos rfl]
  · exact (mem_claimEntry_evidence _ _).mpr (.inr ⟨rfl, rfl⟩)

theorem Recorded.put (hq : Recorded claims q) (h : UniqueClaims claims) :
    Recorded (putEntry (claimEntry p (byId claims p.artifact.claimId)) claims) q := by
  obtain ⟨e, he, hid⟩ := hq
  unfold Recorded
  rw [byId_putEntry h, claimEntry_claimId]
  by_cases hc : q.artifact.claimId = p.artifact.claimId
  · rw [if_pos hc, ← hc, he]
    exact ⟨_, rfl, (mem_claimEntry_evidence _ _).mpr (.inl ⟨e, rfl, hid⟩)⟩
  · rw [if_neg hc]
    exact ⟨e, he, hid⟩

/-! ## Runs -/

/-- What is known of a call in the state. -/
structure Sound (s : State) (c : Caller) : Prop where
  known : c.prepared.recordHash ∈ s.known ∧ ∀ h ∈ c.stage.processed, h ∈ s.known
  apart : c.stage ≠ .returned → c.prepared.recordHash ∉ s.dir.processed ∧
    ∀ d ∈ s.calls, c.prepared.recordHash ∉ d.stage.processed
  recorded : ∀ processed, c.stage = .claimsWritten processed → Recorded s.dir.claims c.prepared
  landed : c.stage = .returned → Landed s.dir c.prepared

structure Inv (s : State) : Prop where
  unique : UniqueClaims s.dir.claims
  nodup : (s.calls.map fun c => c.prepared.recordHash).Nodup
  known : ∀ h ∈ s.dir.processed, h ∈ s.known
  calls : ∀ c ∈ s.calls, Sound s c

theorem inv_start (h : UniqueClaims dir.claims) : Inv (.start dir) :=
  ⟨h, List.nodup_nil, fun _ hh => hh, fun _ hc => absurd hc List.not_mem_nil⟩

/-- The other calls are for other records. -/
theorem mem_set {i : Nat} {d e : Caller}
    (hnodup : (s.calls.map fun c => c.prepared.recordHash).Nodup)
    (hc : s.calls[i]? = some c) (hd : d ∈ s.calls.set i e) :
    d = e ∨ (d ∈ s.calls ∧ d.prepared.recordHash ≠ c.prepared.recordHash) := by
  obtain ⟨j, hj⟩ := List.mem_iff_getElem?.mp hd
  by_cases hij : i = j
  · rw [List.getElem?_set, if_pos hij] at hj
    split at hj
    · exact .inl (Option.some.inj hj).symm
    · cases hj
  · rw [List.getElem?_set_ne hij] at hj
    refine .inr ⟨List.mem_of_getElem? hj, fun hhash => hij ?_⟩
    have hi' : (s.calls.map fun c => c.prepared.recordHash)[i]? = some c.prepared.recordHash := by
      rw [List.getElem?_map, hc]
      rfl
    have hj' : (s.calls.map fun c => c.prepared.recordHash)[j]? = some c.prepared.recordHash := by
      rw [List.getElem?_map, hj, ← hhash]
      rfl
    obtain ⟨hlt, -⟩ := List.getElem?_eq_some_iff.mp hi'
    exact (List.getElem?_inj hlt hnodup).mp (hi'.trans hj'.symm)

/-- The step of a call keeps the invariant, where what it does to the files is sound for the call,
and for the other calls. -/
theorem Inv.set {i : Nat} {stage : Stage} (h : Inv s) (hc : s.calls[i]? = some c)
    (hunique : UniqueClaims dir.claims)
    (hprocessed : ∀ h ∈ dir.processed, h ∈ s.dir.processed ∨ h = c.prepared.recordHash)
    (hkept : ∀ h ∈ s.dir.processed, h ∈ dir.processed)
      (hstage : ∀ h ∈ stage.processed, h ∈ c.stage.processed)
    (hrecorded : ∀ q, Recorded s.dir.claims q → Recorded dir.claims q)
    (hself : stage ≠ .returned → dir.processed = s.dir.processed ∧ c.stage ≠ .returned)
    (hclaims : ∀ processed, stage = .claimsWritten processed → Recorded dir.claims c.prepared)
    (hlanded : stage = .returned → Landed dir c.prepared) :
    Inv { s with dir, calls := s.calls.set i ⟨c.prepared, stage⟩ } := by
  have hmem := List.mem_of_getElem? hc
  have hsound := h.calls c hmem
  have hknown : ∀ h ∈ dir.processed, h ∈ s.known := fun x hx => by
    rcases hprocessed x hx with hx | rfl
    · exact h.known x hx
    · exact hsound.known.1
  -- what no call has read, no call has read now
  have hread : ∀ x, (∀ d ∈ s.calls, x ∉ d.stage.processed) →
      ∀ d ∈ s.calls.set i ⟨c.prepared, stage⟩, x ∉ d.stage.processed := by
    intro x hx d hd
    rcases mem_set h.nodup hc hd with rfl | ⟨hd, -⟩
    · exact fun hin => hx c hmem (hstage x hin)
    · exact hx d hd
  refine ⟨hunique, ?_, hknown, ?_⟩
  · have hmap : ((s.calls.set i ⟨c.prepared, stage⟩).map fun c => c.prepared.recordHash) =
        s.calls.map fun c => c.prepared.recordHash := by
      refine List.ext_getElem? fun j => ?_
      rw [List.getElem?_map, List.getElem?_map, List.getElem?_set]
      by_cases hij : i = j
      · obtain ⟨hlt, -⟩ := List.getElem?_eq_some_iff.mp hc
        rw [if_pos hij, if_pos hlt, ← hij, hc]
        rfl
      · rw [if_neg hij]
    rw [hmap]
    exact h.nodup
  · intro d hd
    rcases mem_set h.nodup hc hd with rfl | ⟨hd, hne⟩
    · refine ⟨⟨hsound.known.1, fun x hx => hsound.known.2 x (hstage x hx)⟩, ?_, hclaims, hlanded⟩
      intro hopen
      obtain ⟨hsame, hwas⟩ := hself hopen
      obtain ⟨hout, hunread⟩ := hsound.apart hwas
      exact ⟨by rw [hsame]; exact hout, hread _ hunread⟩
    · have hd' := h.calls d hd
      refine ⟨hd'.known, ?_, fun processed hp => hrecorded _ (hd'.recorded processed hp),
        fun hr => ?_⟩
      · intro hopen
        obtain ⟨hout, hunread⟩ := hd'.apart hopen
        refine ⟨fun hin => ?_, hread _ hunread⟩
        rcases hprocessed _ hin with hin | heq
        · exact hout hin
        · exact hne heq
      · obtain ⟨hrec, hin⟩ := hd'.landed hr
        exact ⟨hrecorded _ hrec, hkept _ hin⟩

theorem Inv.next {i : Nat} (h : Inv s) (hq : Undisturbed s (.next i)) (hc : s.calls[i]? = some c)
    {stage : Stage} (hstep : callStep s.dir c.prepared c.stage = some (dir, stage)) :
    Inv { s with dir, calls := s.calls.set i ⟨c.prepared, stage⟩ } := by
  have hsound := h.calls c (List.mem_of_getElem? hc)
  have hundisturbed := hq c hc
  obtain ⟨p, was⟩ := c
  cases was with
  | cursorRead processed =>
    cases hstep
    exact h.set hc h.unique (fun _ => .inl) (fun _ => id) (fun _ => id) (fun _ => id)
      (fun _ => ⟨rfl, Stage.noConfusion⟩) (fun _ => Stage.noConfusion) Stage.noConfusion
  | registryRead processed claims =>
    have hunread : p.recordHash ∉ processed :=
      (hsound.apart Stage.noConfusion).2 _ (List.mem_of_getElem? hc)
    simp only [callStep, if_neg hunread] at hstep
    cases hstep
    exact h.set hc h.unique (fun _ => .inl) (fun _ => id) (fun _ => id) (fun _ => id)
      (fun _ => ⟨rfl, Stage.noConfusion⟩) (fun _ => Stage.noConfusion) Stage.noConfusion
  | artifactWritten processed claims =>
    obtain rfl : s.dir.claims = claims := hundisturbed
    cases hstep
    exact h.set hc h.unique.put (fun _ => .inl) (fun _ => id) (fun _ => id)
      (fun _ hr => hr.put h.unique)
      (fun _ => ⟨rfl, Stage.noConfusion⟩) (fun _ _ => recorded_put h.unique) Stage.noConfusion
  | claimsWritten processed =>
    obtain rfl : s.dir.processed = processed := hundisturbed
    cases hstep
    refine h.set hc h.unique (fun x hx => ?_) (fun x hx => ?_)
      (fun _ hx => absurd hx List.not_mem_nil) (fun _ => id)
      (fun hne => absurd rfl hne) (fun _ => Stage.noConfusion) fun _ => ⟨hsound.recorded _ rfl, ?_⟩
    · simpa using hx
    · simp [hx]
    · simp
  | returned => cases hstep

theorem Inv.begin (h : Inv s) (hnew : p.recordHash ∉ s.known) : Inv { s with
    calls := s.calls ++ [⟨p, .cursorRead s.dir.processed⟩], known :=
      s.known ++ [p.recordHash] } := by
  have hread : ∀ d ∈ s.calls ++ [⟨p, .cursorRead s.dir.processed⟩], ∀ x ∈ d.stage.processed,
      x ∈ s.known := by
    intro d hd
    rcases List.mem_append.mp hd with hd | hd
    · exact (h.calls d hd).known.2
    · rw [List.mem_singleton.mp hd]
      exact h.known
  refine ⟨h.unique, ?_, fun x hx => List.mem_append_left _ (h.known x hx), ?_⟩
  · rw [List.map_append, List.map_singleton, List.nodup_append]
    refine ⟨h.nodup, List.nodup_singleton _, ?_⟩
    rintro x hx _ hx' rfl
    obtain ⟨d, hd, rfl⟩ := List.mem_map.mp hx
    rw [List.mem_singleton] at hx'
    exact hnew (hx' ▸ (h.calls d hd).known.1)
  · intro d hd
    rcases List.mem_append.mp hd with hmem | hmem
    · have hsound := h.calls d hmem
      refine ⟨⟨List.mem_append_left _ hsound.known.1, fun x hx =>
        List.mem_append_left _ (hsound.known.2 x hx)⟩,
        fun hopen => ⟨(hsound.apart hopen).1, fun e he => ?_⟩, hsound.recorded, hsound.landed⟩
      rcases List.mem_append.mp he with he | he
      · exact (hsound.apart hopen).2 e he
      · rw [List.mem_singleton.mp he]
        exact (hsound.apart hopen).1
    · obtain rfl := List.mem_singleton.mp hmem
      exact ⟨⟨List.mem_append_right _ List.mem_cons_self, fun x hx =>
        List.mem_append_left _ (h.known x hx)⟩,
        fun _ => ⟨fun hin => hnew (h.known _ hin), fun e he hin => hnew (hread e he _ hin)⟩,
        fun _ => Stage.noConfusion, Stage.noConfusion⟩

theorem Inv.step {e : Event} (h : Inv s) (hq : Undisturbed s e)
    (hstep : Overlap.step P lib s e = some t) : Inv t := by
  cases e with
  | start producer record gitHead =>
    simp only [Overlap.step] at hstep
    split at hstep
    · obtain rfl := Option.some.inj hstep
      exact h
    · split at hstep
      · cases hstep
      next hnew =>
      obtain rfl := Option.some.inj hstep
      exact h.begin hnew
  | next i =>
    simp only [Overlap.step] at hstep
    split at hstep
    · cases hstep
    next c hc =>
    obtain ⟨out, hout, rfl⟩ := Option.map_eq_some_iff.mp hstep
    exact h.next hq hc hout

/-- **Undisturbed calls lose nothing.** The ledger is any that the producers have left before. -/
theorem run_recorded {before : List Call} {s₀ : Conversation.State} {events : List Event}
    (hbefore : run (Conversation.step P lib) .start before = some s₀)
    (h : run (step P lib) (.start s₀.dir) events = some s)
      (hq : Along (step P lib) Undisturbed (.start s₀.dir) events) :
    ∀ c ∈ s.calls, c.stage = .returned → Landed s.dir c.prepared := by
  have hinv : Inv s := run_invariant_along (fun _ _ _ _ ht hQ hstep => ht.step hQ hstep)
    (inv_start (run_traced hbefore).unique) hq h
  exact fun c hc => (hinv.calls c hc).landed

end

/-! ## Two calls -/

/-- The events of two calls for different questions. -/
def firstStart : Event := .start .conversation (answerRecord "t1" "SUPPORTING" "09:00") (lit "c0")

def secondStart : Event := .start .conversation (answerRecord "t2" "UNSUPPORTED" "09:00") (lit "c0")

theorem run_recorded_inTurn : ∃ s, run (step backwards .plain) (.start .empty)
      [firstStart, .next 0, .next 0, .next 0, .next 0, secondStart, .next 1, .next 1, .next 1,
        .next 1] = some s ∧
    s.calls.map Caller.stage = [.returned, .returned] ∧
      ∀ c ∈ s.calls, c.stage = .returned → Landed s.dir c.prepared := by
  have hrun : (run (step backwards .plain) (.start .empty)
      [firstStart, .next 0, .next 0, .next 0, .next 0, secondStart, .next 1, .next 1, .next 1,
        .next 1]).map
        (fun s => s.calls.map Caller.stage) = some [.returned, .returned] := by decide +kernel
  obtain ⟨s, hs, hstages⟩ := Option.map_eq_some_iff.mp hrun
  have hbefore : run (Conversation.step backwards .plain) .start [] = some .start := rfl
  exact ⟨s, hs, hstages, run_recorded hbefore hs (by decide +kernel)⟩

/-- Both calls read the empty ledger, and the second one replaces what the first one has written. -/
theorem not_run_recorded : ¬ ∀ (P : Platform) (lib : Texts) (before : List Call)
    (s₀ : Conversation.State)
    (events : List Event) (s : State), run (Conversation.step P lib) .start before = some s₀ →
      run (step P lib) (.start s₀.dir) events = some s → (∀ c ∈ s.calls, c.stage = .returned) →
        ∀ c ∈ s.calls, Landed s.dir c.prepared := by
  intro h
  have hrun : (run (step backwards .plain) (.start .empty)
      [firstStart, secondStart, .next 0, .next 1, .next 0, .next 0, .next 0, .next 1, .next 1,
        .next 1]).map
        (fun s => (s.calls.map Caller.stage, s.calls.map fun c =>
          decide (c.prepared.recordHash ∈ s.dir.processed))) =
      some ([.returned, .returned], [false, true]) := by decide +kernel
  obtain ⟨s, hs, hshape⟩ := Option.map_eq_some_iff.mp hrun
  obtain ⟨hstages, hhashes⟩ := Prod.mk.inj hshape
  have hreturned : ∀ c ∈ s.calls, c.stage = .returned := by
    intro c hc
    have hmem := List.mem_map_of_mem (f := Caller.stage) hc
    rw [hstages] at hmem
    simpa using hmem
  have hlanded := h _ _ [] .start _ s rfl hs hreturned
  have hfalse : false ∈ s.calls.map fun c => decide (c.prepared.recordHash ∈ s.dir.processed) := by
    rw [hhashes]
    exact List.mem_cons_self
  obtain ⟨c, hc, hout⟩ := List.mem_map.mp hfalse
  exact of_decide_eq_false hout (hlanded c hc).2

end Conversation.Overlap
