import Msb.Memory.Consolidation

/-!
# The lifecycle of a memory

The recorded transitions of a memory should lead from `UNVERIFIED` to the state it has, a memory
should be archived where it is deprecated and nowhere else, and no call should touch the memories of
another tenant.

Three things are in the way. `verify_memory` deprecates a memory without archiving it.
`store_memory` with the id of a memory that is there sets its state back, whatever its tenant. And
the row of a transition is written after the memory: where the row cannot be written, the memory has
moved all the same.

* `run_lifecycle` — all of it holds along every run without such a call
-/

namespace Memory

open Py

variable {F : Type} (P : Platform F) {db db' : Db F} {item : MemoryItem F}

/-! ## What is claimed -/

/-- The recorded transitions of every memory are a path to its state, and the archived memories are
the deprecated ones. -/
def Lifecycle (db : Db F) : Prop := ∀ item ∈ db.items, Tracked db item

/-- What recall returns is not deprecated. -/
def RecallsNoDeprecated (db : Db F) : Prop :=
  ∀ (call : RecallCall) (now : F) (hits : List (MemoryRecall F)),
  (recallMemories P db call now).1 = .ok hits → ∀ hit ∈ hits, hit.verificationState ≠ .deprecated

/-- The tenant on whose behalf a call is made: for a call that names a memory, the one of the
memory. -/
def Call.tenant (db : Db F) : Call F → Str
  | .storeMemory call _ _ => call.tenant
  | .verifyMemory call _ => (db.find call.memoryId).elim [] MemoryItem.tenant
  | .forgetMemory memoryId _ _ _ => (db.find memoryId).elim [] MemoryItem.tenant
  | .consolidate tenant _ _ => tenant
  | .recallMemories call _ => call.tenant

/-! ## The calls that keep it -/

/-- The calls that keep to the lifecycle: what is to be recorded has a UTF-8 form, `verify_memory`
deprecates nothing, and where `store_memory` meets a memory with its id, that one is `UNVERIFIED`,
and of the same tenant or with the same content. -/
def Call.Orderly (db : Db F) (call : Call F) : Prop :=
  (∀ t ∈ call.pending P db, Encodes t.texts) ∧
  match call with
  | .storeMemory call uuid now => strip call.content ≠ [] → Encodes (call.item P uuid now).texts →
      ∀ old, db.find (call.idOr uuid) = some old → old.verificationState = .unverified ∧
        (old.tenant = call.tenant ∨ old.content = (call.item P uuid now).content)
  | .verifyMemory call _ => call.toState = .deprecated → ∀ r, call.checked db ≠ .ok r
  | _ => True

variable {P}

theorem checked_eq_ok {call : VerifyCall} {reason : Str}
    (h : call.checked db = .ok (item, reason)) :
    db.find call.memoryId = some item ∧ item.archived = false ∧
    call.toState ∈ transitions item.verificationState := by
  unfold VerifyCall.checked at h
  obtain ⟨found, hget, h⟩ := bind_eq_ok.mp h
  obtain ⟨r, hcheck, h⟩ := bind_eq_ok.mp h
  obtain ⟨rfl, -⟩ := Prod.mk.inj (Except.ok.inj h)
  unfold VerifyCall.check at hcheck
  obtain ⟨_, harchived, hcheck⟩ := bind_eq_ok.mp hcheck
  obtain ⟨_, -, hcheck⟩ := bind_eq_ok.mp hcheck
  obtain ⟨_, hallowed, -⟩ := bind_eq_ok.mp hcheck
  rw [raiseIf_eq_ok] at harchived hallowed
  exact ⟨(get_eq_ok.mp hget).2, Bool.eq_false_iff.mpr harchived, not_not.mp hallowed⟩

theorem store_writes (hinv : Inv db) {call : StoreCall F} {uuid : Str} {now : F}
    (h : (Call.storeMemory call uuid now).Orderly P db) :
    Writes call.tenant db (storeMemory P db call uuid now).2 := by
  unfold storeMemory
  dsimp only
  split
  · exact .refl
  · next db' hwritten =>
    obtain ⟨_, hcontent, hupsert⟩ := bind_eq_ok.mp hwritten
    obtain ⟨henc, rfl⟩ := upsert_eq_ok.mp hupsert
    refine .single ?_
    cases hold : db.find (call.idOr uuid) with
    | none => exact .create hold rfl rfl henc
    | some old =>
      obtain ⟨hstate, htenant⟩ := h.2 (raiseIf_eq_ok.mp hcontent) henc old hold
      have harchived : old.archived = false := by
        rw [← Bool.not_eq_true, (hinv.tracked _ _ hold).archived_iff, hstate]
        decide
      exact .rewrite hold hstate.symm harchived.symm henc (htenant.imp_right Eq.symm)

/-- What `verify_memory` writes, where its checks pass. -/
theorem verifyMemory_eq {call : VerifyCall} {reason : Str}
    (h : call.checked db = .ok (item, reason)) (now : F) :
    verifyMemory P db call now = db.transition P (item.moved call.toState now)
    (call.transition item reason) [] now := by
  unfold verifyMemory
  rw [h]
  show db.transition P _ _ (db.previousHash P call.memoryId) now = _
  rw [previousHash_eq]

theorem verify_writes (hinv : Inv db) {call : VerifyCall} {now : F}
    (h : (Call.verifyMemory call now).Orderly P db) :
    Writes ((Call.verifyMemory call now).tenant db) db (verifyMemory P db call now).2 := by
  have hpending : ∀ t ∈ call.pending db, Encodes t.texts := h.1
  have hnot : call.toState = .deprecated → ∀ r, call.checked db ≠ .ok r := h.2
  unfold VerifyCall.pending at hpending
  cases hchecked : call.checked db with
  | error e =>
    unfold verifyMemory
    rw [hchecked]
  | ok r =>
    obtain ⟨item, reason⟩ := r
    rw [hchecked] at hpending
    obtain ⟨hfind, -, hallowed⟩ := checked_eq_ok hchecked
    have hid := find_memoryId hfind
    have htexts : Encodes (call.transition item reason).texts := hpending _ List.mem_cons_self
    have hitem : Encodes item.texts := hinv.encodes _ _ hfind
    have henc : Encodes (item.moved call.toState now).texts := hitem
    obtain ⟨record, -, htransition⟩ := transition_ok P now henc htexts
    rw [verifyMemory_eq hchecked, htransition]
    have hold : db.find (item.moved call.toState now).memoryId = some item := by
      show db.find item.memoryId = some item
      rw [hid]
      exact hfind
    have harchived : (item.moved call.toState now).archived = true ↔
        call.toState = .deprecated := by
      have hne : call.toState ≠ .deprecated := fun heq => hnot heq _ hchecked
      refine iff_of_false (fun harch => ?_) hne
      have hdeprecated := (hinv.tracked _ _ hfind).archived_iff.mp harch
      rw [hdeprecated] at hallowed
      cases hallowed
    have htenant : item.tenant = (Call.verifyMemory call now).tenant db := by
      show _ = (db.find call.memoryId).elim [] MemoryItem.tenant
      rw [hfind]
      rfl
    exact .single (.move hold hid.symm rfl hallowed rfl harchived henc htenant)

theorem forget_memory_writes (hinv : Inv db) {memoryId by' reason : Str} {now : F}
    (h : (Call.forgetMemory memoryId by' reason now).Orderly P db) :
    Writes ((Call.forgetMemory memoryId by' reason now).tenant db) db
        (forgetMemory P db memoryId by' reason now).2 := by
  have hpending : ∀ t ∈ forgetPending db memoryId by' reason, Encodes t.texts := h.1
  unfold forgetPending at hpending
  cases hget : db.get memoryId with
  | error e =>
    unfold forgetMemory
    rw [hget]
  | ok item =>
    rw [hget] at hpending
    obtain ⟨hid, hfind⟩ := get_eq_ok.mp hget
    by_cases harchived : item.archived = true
    · unfold forgetMemory
      rw [hget]
      show Writes _ db (if item.archived = true then _ else _ : Outcome F (MemoryItem F)).2
      rw [if_pos harchived]
    · have htexts : Encodes (forgetTransition item by' reason).texts := by
        refine hpending _ ?_
        show _ ∈ if item.archived = true then _ else _
        rw [if_neg harchived]
        exact List.mem_cons_self
      unfold forgetTransition Transition.texts at htexts
      simp only [encodes_cons] at htexts
      have hwords : Encodes [by', reason] := by
        rw [encodes_cons, encodes_cons]
        exact ⟨htexts.2.1, htexts.2.2.1, fun s hs => (by cases hs)⟩
      have htenant : item.tenant = (Call.forgetMemory memoryId by' reason now).tenant db := by
        show _ = (db.find memoryId).elim [] MemoryItem.tenant
        rw [hfind]
        rfl
      obtain ⟨record, -, hwrite⟩ :=
        forget_writes P now hinv hid hfind htenant (Bool.eq_false_iff.mpr harchived) hwords
      exact .single hwrite

theorem recall_writes {tenant : Str} (call : RecallCall) (now : F) :
    Writes tenant db (recallMemories P db call now).2 := by
  unfold recallMemories
  cases call.ranked P db now with
  | error e => exact .refl
  | ok top =>
    show Writes tenant db (List.foldl (Db.touch · now) db _)
    generalize (top.map fun hit => hit.2.memoryId) = ids
    induction ids generalizing db with
    | nil => exact .refl
    | cons memoryId ids ih => exact .head (.touch now memoryId) ih

/-- **An orderly call makes writes on behalf of its tenant.** -/
theorem call_writes (hinv : Inv db) {call : Call F} (h : call.Orderly P db) :
    Writes (call.tenant db) db (call.run P db) := by
  cases call with
  | storeMemory call uuid now => exact store_writes hinv h
  | verifyMemory call now => exact verify_writes hinv h
  | forgetMemory memoryId by' reason now => exact forget_memory_writes hinv h
  | consolidate tenant by' now => exact consolidate_writes P now hinv h.1
  | recallMemories call now => exact recall_writes call now

/-! ## Runs -/

theorem Inv.lifecycle (h : Inv db) : Lifecycle db := fun item hitem =>
  h.tracked item.memoryId item ((Keyed.find_eq_some h.unique).mpr ⟨hitem, rfl⟩)

/-- What is a candidate for recall is in the table and not archived. -/
theorem candidate_active (h : Inv db) {call : RecallCall} (hitem : item ∈ call.candidates P db) :
    db.find item.memoryId = some item ∧ item.archived = false := by
  have hkeywords : ∀ i ∈ db.searchKeywords P call.tenant call.query 50, db.find i.memoryId =
      some i ∧ i.archived = false := by
    intro i hi
    have hmem := List.mem_mergeSort.mp (List.mem_of_mem_take hi)
    rw [List.mem_filter, decide_eq_true_eq] at hmem
    exact ⟨(Keyed.find_eq_some h.unique).mpr ⟨hmem.1, rfl⟩, hmem.2.2.1⟩
  have hpoints : ∀ i ∈ db.searchEmbedding call.points, db.find i.memoryId = some i ∧
      i.archived = false := by
    intro i hi
    obtain ⟨hi, harchived⟩ := List.mem_filter.mp hi
    obtain ⟨memoryId, -, hfind⟩ := List.mem_filterMap.mp hi
    rw [find_memoryId hfind]
    exact ⟨hfind, of_decide_eq_true harchived⟩
  -- `setdefault` adds nothing but the points
  have hfold : ∀ (found points : List (MemoryItem F)), ∀ i ∈ points.foldl setDefault found,
      i ∈ found ∨ i ∈ points := by
    intro found points
    induction points generalizing found with
    | nil => exact fun i hi => Or.inl hi
    | cons p points ih =>
      intro i hi
      rcases ih _ i hi with hi | hi
      · unfold setDefault at hi
        split at hi
        · exact Or.inl hi
        · rcases List.mem_append.mp hi with hi | hi
          · exact Or.inl hi
          · exact Or.inr (List.mem_cons.mpr (Or.inl (List.mem_singleton.mp hi)))
      · exact Or.inr (List.mem_cons_of_mem _ hi)
  obtain ⟨hitem, -⟩ := List.mem_filter.mp hitem
  rcases hfold _ _ item hitem with hi | hi
  · exact hkeywords item hi
  · exact hpoints item hi

theorem Inv.recalls (h : Inv db) : RecallsNoDeprecated P db := by
  intro call now hits hrecall hit hhit
  unfold recallMemories at hrecall
  cases hranked : call.ranked P db now with
  | error e =>
    rw [hranked] at hrecall
    cases hrecall
  | ok top =>
    rw [hranked] at hrecall
    obtain rfl := Except.ok.inj hrecall
    obtain ⟨⟨score, item⟩, htop, rfl⟩ := List.mem_map.mp hhit
    unfold RecallCall.ranked at hranked
    obtain ⟨_, -, hranked⟩ := bind_eq_ok.mp hranked
    obtain ⟨scored, hscored, hranked⟩ := bind_eq_ok.mp hranked
    obtain rfl := Except.ok.inj hranked
    have hmem := List.mem_mergeSort.mp (List.mem_of_mem_take htop)
    have hsame : List.Forall₂ (fun (a : MemoryItem F) (b : F × MemoryItem F) => a = b.2)
        (call.candidates P db) scored := by
      refine (mapM_eq_ok.mp hscored).imp fun a b hab => ?_
      unfold RecallCall.score at hab
      obtain ⟨live, -, hab⟩ := bind_eq_ok.mp hab
      rw [← Except.ok.inj hab]
    rw [← List.forall₂_map_right_iff (R := Eq) (f := Prod.snd), List.forall₂_eq_eq_eq] at hsame
    have hcandidate : item ∈ call.candidates P db := by
      rw [hsame]
      exact List.mem_map_of_mem hmem
    obtain ⟨hfind, harchived⟩ := candidate_active h hcandidate
    intro hdeprecated
    have harch := (h.tracked _ _ hfind).archived_iff.mpr hdeprecated
    rw [harchived] at harch
    cases harch

theorem run_inv {calls : List (Call F)} (hrun : Machine.run (step P) Db.empty calls = some db)
    (h : Machine.Along (step P) (Call.Orderly P) Db.empty calls) : Inv db := by
  refine Machine.run_invariant_along (I := Inv) (fun call _ s t hs hcall hstep => ?_)
    inv_empty h hrun
  obtain rfl := Option.some.inj hstep
  exact (call_writes hs hcall).inv hs

/-- **The lifecycle along a run of orderly calls**, for its last call and so for each of them. -/
theorem run_lifecycle {calls : List (Call F)} {call : Call F} {s t : Db F}
    (hrun : Machine.run (step P) Db.empty calls = some s) (hstep : step P s call = some t)
    (h : Machine.Along (step P) (Call.Orderly P) Db.empty (calls ++ [call])) :
    Lifecycle t ∧ RecallsNoDeprecated P t ∧ Kept (call.tenant s) s t := by
  obtain ⟨hcalls, hlast⟩ := Machine.along_concat.mp h
  have hs : Inv s := run_inv hrun hcalls
  obtain rfl := Option.some.inj hstep
  have hwrites := call_writes hs (hlast s hrun)
  have ht := hwrites.inv hs
  exact ⟨ht.lifecycle, ht.recalls, hwrites.kept hs⟩

/-- A platform whose floats are whole numbers. -/
def Platform.whole : Platform ℕ where
  float := ⟨fun q => q.floor.toNat, fun a b => a < b, fun a b => a ≤ b, (· - ·), (· * ·), (· / ·),
    fun a b => .ok (a ^ b), id⟩
  redact := id
  lower := id
  matchesLike item term := containsText term item.content
  sha256 b := 1 :: b

def callX : StoreCall ℕ :=
  ⟨lit "x", .semantic, [], 1, [], [], [], lit "default", [], [], 1, [], some (lit "m")⟩

/-- `store_memory("x", memory_id="m")` -/
def storeX : Call ℕ := .storeMemory callX (lit "u") 0

/-- What it stores. -/
def itemX : MemoryItem ℕ := callX.item Platform.whole (lit "u") 0

def callM (toState : VerificationState) : VerifyCall :=
  ⟨lit "m", toState, lit "op", [], [], [], [], []⟩

/-- `verify_memory("m", ..., by="op")` -/
def verifyM (toState : VerificationState) : Call ℕ := .verifyMemory (callM toState) 1

theorem run_lifecycle_verified : ∃ s t, Machine.run (step Platform.whole) Db.empty
    [storeX] = some s ∧ step Platform.whole s (verifyM .verified) = some t ∧
    Lifecycle t ∧ RecallsNoDeprecated Platform.whole t ∧
        Kept ((verifyM .verified).tenant s) s t := by
  refine ⟨_, _, rfl, rfl,
    run_lifecycle (show Machine.run (step Platform.whole) Db.empty [storeX] = some _ from rfl) rfl
    ?_⟩
  refine ⟨⟨fun t ht => (by cases ht), fun _ _ old hold => (by cases hold)⟩, fun s hs =>
    ⟨⟨?_, ?_⟩, fun _ _ => trivial⟩⟩
  · obtain rfl := Option.some.inj hs
    decide
  · intro h
    cases h

/-- Deprecated by way of `verify_memory`, a memory is not archived. -/
theorem not_lifecycle : ∃ t, Machine.run (step Platform.whole) Db.empty
    [storeX, verifyM .deprecated] = some t ∧ ¬ Lifecycle t := by
  refine ⟨_, rfl, fun h => ?_⟩
  have hitem :
    ∃ item ∈ ((verifyM .deprecated).run Platform.whole (storeX.run Platform.whole Db.empty)).items,
      item.archived = false ∧ item.verificationState = .deprecated := by
    show ∃ item ∈ (verifyMemory Platform.whole (storeX.run Platform.whole Db.empty) _ 1).2.items, _
    rw [verifyMemory_eq (show VerifyCall.checked _ _ = .ok (_, ([] : Str)) from rfl)]
    decide
  obtain ⟨item, hmem, harchived, hstate⟩ := hitem
  have harch := (h item hmem).archived_iff.mpr hstate
  rw [harchived] at harch
  cases harch

end Memory
