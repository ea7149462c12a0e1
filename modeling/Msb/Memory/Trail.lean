import Msb.Memory.Lifecycle

/-!
# The verification trail

Every row of a memory's history should carry the hash of the row before it, and the last hash should
stand for the whole history.

The hash of the row before is read from a query that does not select it, and `forget_memory` does
not ask for it: every row links to nothing. And what is hashed is a text joined by colons, without
the time: a colon in a text moves the fields, and the time can be any.

* `run_trail` — what is left: a history of one row, whose texts have no colon
-/

namespace Memory

open Py

variable {F : Type} (P : Platform F) {db db' : Db F} {item : MemoryItem F} {by' : Str} {now : F}

/-! ## What is claimed -/

/-- Every row after the first has the hash of the row before it. -/
def Linked (rows : List (VerificationRow F)) : Prop :=
  rows.IsChain fun a b => b.previousHash = a.recordHash

def lastHash (rows : List (VerificationRow F)) : Option Str :=
  rows.getLast?.map VerificationRow.recordHash

/-! ## Rows -/

def VerificationRow.transition (row : VerificationRow F) : Transition :=
  ⟨row.memoryId, row.fromState, row.toState, row.by', row.requestedBy, row.reason, row.requestId,
    row.serverVersion⟩

/-- A row as `record_verification` writes it: it links to nothing, and its hash is that of its text.
-/
structure Written (row : VerificationRow F) : Prop where
  previousHash : row.previousHash = []
  recordHash : ∃ record, encode (row.transition.record []) = some record ∧
    row.recordHash = hex (P.sha256 record)

variable {P}

/-- A text of the record that has no UTF-8 form leaves the record without one. -/
theorem encodes_of_record {t : Transition} (h : (encode (t.record [])).isSome = true) :
    Encodes t.texts := by
  have hmem : ∀ {texts : List Str}, (encode (colon.intercalate texts)).isSome = true →
      Encodes texts := by
    intro texts
    induction texts with
    | nil =>
      intro _ s hs
      cases hs
    | cons a texts ih =>
      intro henc
      cases texts with
      | nil =>
        rw [List.intercalate_singleton] at henc
        intro s hs
        rw [List.mem_singleton.mp hs]
        exact henc
      | cons b texts =>
        rw [List.intercalate_cons_cons, encode_append_isSome, encode_append_isSome] at henc
        exact encodes_cons.mpr ⟨henc.1.1, ih henc.2⟩
  have hall := hmem h
  simp only [encodes_cons] at hall
  obtain ⟨hid, -, -, hby, hreason, hrequested, hrequest, hserver, -, hnil⟩ := hall
  unfold Transition.texts
  simp only [encodes_cons]
  exact ⟨hid, hby, hreason, hrequested, hrequest, hserver, hnil⟩

/-- What a transition adds to the history: nothing, or its row. -/
theorem transition_history (P : Platform F) (hunique : db.Unique) (item : MemoryItem F)
    (t : Transition) (now : F) : (db.transition P item t [] now).2.Unique ∧
    ((db.transition P item t [] now).2.history = db.history ∨
      ∃ row, (db.transition P item t [] now).2.history = db.history ++ [row] ∧ Written P row ∧
      row.transition = t) := by
  unfold Db.transition
  cases hupsert : db.upsert item with
  | error e => exact ⟨hunique, Or.inl rfl⟩
  | ok mid =>
    obtain ⟨-, rfl⟩ := upsert_eq_ok.mp hupsert
    cases hrecord : (db.put item).recordVerification P t [] now with
    | error e =>
      simp only [hrecord]
      exact ⟨unique_put hunique, Or.inl rfl⟩
    | ok last =>
      obtain ⟨record, henc, rfl⟩ := recordVerification_eq_ok.mp hrecord
      simp only [hrecord]
      exact ⟨unique_put hunique, Or.inr ⟨_, rfl, ⟨rfl, record, henc, rfl⟩, rfl⟩⟩

/-- What a call has recorded of the transitions it set out to record: the texts are those it was
given. -/
structure Recorded (P : Platform F) (pending : List Transition) (s t : Db F) : Prop where
  unique : t.Unique
  rows : ∃ rows : List (VerificationRow F), t.history = s.history ++ rows ∧
    (∀ row ∈ rows, Written P row) ∧
    (rows.map fun row => row.transition.texts).Sublist (pending.map Transition.texts)

theorem Recorded.none (h : db'.Unique) (pending : List Transition)
    (hhistory : db'.history = db.history) : Recorded P pending db db' :=
  ⟨h, [], by rw [List.append_nil]; exact hhistory, fun _ hrow => (by cases hrow),
    List.nil_sublist _⟩

variable {first second : List Transition}

theorem Recorded.append {s t u : Db F} (h : Recorded P first s t) (h' : Recorded P second t u) :
    Recorded P (first ++ second) s u := by
  obtain ⟨rows, hrows, hwritten, hsub⟩ := h.rows
  obtain ⟨rows', hrows', hwritten', hsub'⟩ := h'.rows
  refine ⟨h'.unique, rows ++ rows', ?_, fun row hrow => ?_, ?_⟩
  · rw [hrows', hrows, List.append_assoc]
  · rcases List.mem_append.mp hrow with hrow | hrow
    · exact hwritten row hrow
    · exact hwritten' row hrow
  · rw [List.map_append, List.map_append]
    exact hsub.append hsub'

theorem forget_recorded (hunique : db.Unique) (memoryId reason : Str) :
    Recorded P (forgetPending db memoryId by' reason) db
    (forgetMemory P db memoryId by' reason now).2 := by
  unfold forgetPending
  cases hget : db.get memoryId with
  | error e =>
    unfold forgetMemory
    rw [hget]
    exact .none hunique _ rfl
  | ok item =>
    unfold forgetMemory
    rw [hget]
    show Recorded P (if item.archived = true then _ else _) db
      (if item.archived = true then _ else _ : Outcome F (MemoryItem F)).2
    by_cases harchived : item.archived = true
    · rw [if_pos harchived, if_pos harchived]
      exact .none hunique _ rfl
    · rw [if_neg harchived, if_neg harchived]
      obtain ⟨hunique', hhistory | ⟨row, hhistory, hwritten, hrow⟩⟩ :=
        transition_history P hunique (item.forgotten now) (forgetTransition item by' reason) now
      · exact .none hunique' _ hhistory
      · refine ⟨hunique', [row], hhistory, fun r hr => ?_, ?_⟩
        · rw [List.mem_singleton.mp hr]
          exact hwritten
        · rw [List.map_singleton, hrow]
          exact .refl _

theorem verify_recorded (hunique : db.Unique) (call : VerifyCall) :
    Recorded P (call.pending db) db (verifyMemory P db call now).2 := by
  unfold VerifyCall.pending
  unfold verifyMemory
  cases call.checked db with
  | error e => exact .none hunique _ rfl
  | ok r =>
    obtain ⟨item, reason⟩ := r
    show Recorded P [call.transition item reason] db
      (db.transition P _ _ (db.previousHash P call.memoryId) now).2
    rw [previousHash_eq]
    obtain ⟨hunique', hhistory | ⟨row, hhistory, hwritten, hrow⟩⟩ :=
      transition_history P hunique (item.moved call.toState now) (call.transition item reason) now
    · exact .none hunique' _ hhistory
    · refine ⟨hunique', [row], hhistory, fun r hr => ?_, ?_⟩
      · rw [List.mem_singleton.mp hr]
        exact hwritten
      · rw [List.map_singleton, hrow]
        exact .refl _

/-! ## Loops -/

theorem Recorded.mono (h : Recorded P first db db')
    (hsub : (first.map Transition.texts).Sublist (second.map Transition.texts)) :
    Recorded P second db db' := by
  obtain ⟨rows, hrows, hwritten, hpending⟩ := h.rows
  exact ⟨h.unique, rows, hrows, hwritten, hpending.trans hsub⟩

theorem each_recorded {α : Type} {f : Db F → α → Outcome F Unit} {pending : α → List Transition}
    (hf : ∀ db a, db.Unique → Recorded P (pending a) db (f db a).2) : ∀ {as : List α} {db : Db F},
    db.Unique →
    Recorded P (as.flatMap pending) db (each f db as).2
  | [], _, h => .none h _ rfl
  | a :: as, db, h => by
    have hfirst := hf db a h
    rw [each, List.flatMap_cons]
    generalize f db a = out at hfirst ⊢
    obtain ⟨result, mid⟩ := out
    cases result with
    | error e =>
      refine hfirst.mono ?_
      rw [List.map_append]
      exact List.sublist_append_left _ _
    | ok u => exact hfirst.append (each_recorded hf hfirst.unique)

theorem each_quiet {α : Type} {f : Db F → α → Outcome F Unit}
    (hf : ∀ db a, db.Unique → Recorded P [] db (f db a).2)
    (as : List α) (h : db.Unique) : Recorded P [] db (each f db as).2 := by
  have hall : Recorded P (as.flatMap fun _ => []) db (each f db as).2 := each_recorded hf h
  rw [List.flatMap_eq_nil_iff.mpr fun _ _ => rfl] at hall
  exact hall

theorem andThen_recorded {α β : Type} {out : Outcome F α} {f : Db F → Outcome F β}
    (h : Recorded P first db out.2)
    (hf : ∀ mid : Db F, mid.Unique → Recorded P second mid (f mid).2) :
    Recorded P (first ++ second) db (out.andThen f).2 := by
  obtain ⟨result, mid⟩ := out
  cases result with
  | error e =>
    refine h.mono ?_
    rw [List.map_append]
    exact List.sublist_append_left _ _
  | ok a => exact h.append (hf mid h.unique)

theorem upsert_recorded (P : Platform F) (h : db.Unique) (item : MemoryItem F) :
    Recorded P [] db (upsertSurvivor db item).2 := by
  unfold upsertSurvivor
  cases hupsert : db.upsert item with
  | error e => exact .none h _ rfl
  | ok mid =>
    obtain ⟨-, rfl⟩ := upsert_eq_ok.mp hupsert
    exact .none (unique_put h) _ rfl

theorem decay_recorded (P : Platform F) (now : F) (h : db.Unique) (item : MemoryItem F) :
    Recorded P [] db (decay P now db item).2 := by
  unfold decay
  cases decayedImportance P now item with
  | error e => exact .none h _ rfl
  | ok importance =>
    show Recorded P [] db (if P.float.lt importance item.importance = true then _ else _ :
      Outcome F Unit).2
    split
    · exact upsert_recorded P h _
    · exact .none h _ rfl

/-- The transition a merge sets out to record. -/
def consumedTransition (by' : Str) (merged : Str × MemoryItem F) : Transition :=
  forgetTransition merged.2 by' (lit "consolidated into " ++ merged.1)

theorem forgetConsumed_recorded (P : Platform F) (by' : Str) (now : F) (h : db.Unique)
    (merged : Str × MemoryItem F) :
    Recorded P [consumedTransition by' merged] db (forgetConsumed P by' now db merged).2 := by
  have hforget : Recorded P [consumedTransition by' merged] db
      (forgetMemory P db merged.2.memoryId by' (lit "consolidated into " ++ merged.1) now).2 := by
    refine (forget_recorded h _ _).mono ?_
    unfold forgetPending
    cases hget : db.get merged.2.memoryId with
    | error e => exact List.nil_sublist _
    | ok found =>
      have hid := find_memoryId (get_eq_ok.mp hget).2
      show (List.map Transition.texts (if found.archived = true then _ else _)).Sublist _
      split
      · exact List.nil_sublist _
      · have htexts : (forgetTransition found by' (lit "consolidated into " ++ merged.1)).texts =
            (consumedTransition by' merged).texts := by
          unfold consumedTransition forgetTransition Transition.texts
          rw [hid]
        rw [List.map_singleton, List.map_singleton, htexts]
  exact andThen_recorded hforget fun mid hmid => Recorded.none hmid [] rfl

theorem decayPass_recorded (P : Platform F) (now : F) (h : db.Unique) (tenant : Str)
    (groups : List (List (MemoryItem F))) : Recorded P [] db (decayPass P tenant now groups db).2 :=
  andThen_recorded (each_quiet (fun _ item hu => decay_recorded P now hu item) _ h) fun _ hlast =>
    .none hlast [] rfl

theorem consolidatePending_eq (tenant : Str) : consolidatePending P db tenant by' now =
    (groupsOf (db.listActive P tenant 1000)).flatMap fun group =>
      ((mergesOf P now group).flatMap Merge.pairs).flatMap fun merged =>
          [consumedTransition by' merged] := by
  show List.map (consumedTransition by')
    (((groupsOf (db.listActive P tenant 1000)).flatMap (mergesOf P now)).flatMap Merge.pairs) = _
  rw [List.flatMap_assoc, List.map_flatMap]
  refine congrArg (fun f => List.flatMap f _) (funext fun group => ?_)
  exact List.map_eq_flatMap

theorem consolidate_recorded (h : db.Unique) (tenant : Str) :
    Recorded P (consolidatePending P db tenant by' now) db (consolidate P db tenant by' now).2 := by
  unfold consolidate
  cases bindTexts [tenant] with
  | error e => exact .none h _ rfl
  | ok u =>
    have hgroup : ∀ (db : Db F) (group : List (MemoryItem F)), db.Unique →
        Recorded P (((mergesOf P now group).flatMap Merge.pairs).flatMap fun merged =>
          [consumedTransition by' merged]) db (consolidateGroup P by' now db group).2 := by
      intro db group hunique
      have hforgets :
          Recorded P _ db
          (each (forgetConsumed P by' now) db ((mergesOf P now group).flatMap Merge.pairs)).2 :=
        each_recorded (fun db merged hu => forgetConsumed_recorded P by' now hu merged) hunique
      have hupserts : ∀ mid : Db F, mid.Unique → Recorded P [] mid
          (each upsertSurvivor mid ((mergesOf P now group).map Merge.survivor)).2 :=
        fun mid hmid => each_quiet (fun db item hu => upsert_recorded P hu item) _ hmid
      have hall := andThen_recorded hforgets hupserts
      rw [List.append_nil] at hall
      exact hall
    have hgroups :
        Recorded P _ db
        (each (consolidateGroup P by' now) db (groupsOf (db.listActive P tenant 1000))).2 :=
      each_recorded hgroup h
    have hall := andThen_recorded hgroups fun mid hmid =>
      decayPass_recorded P now hmid tenant (groupsOf (db.listActive P tenant 1000))
    rw [List.append_nil] at hall
    rw [consolidatePending_eq]
    exact hall

/-- **What a call records**, of what it sets out to record. -/
theorem call_recorded (h : db.Unique) (call : Call F) :
    Recorded P (call.pending P db) db (call.run P db) := by
  cases call with
  | storeMemory call uuid now =>
    show Recorded P [] db (storeMemory P db call uuid now).2
    unfold storeMemory
    cases hwritten :
      (raiseIf (strip call.content = []) (.valueError (lit "content is required")) >>=
      fun _ => db.upsert (call.item P uuid now)) with
    | error e =>
      simp only [hwritten]
      exact .none h _ rfl
    | ok mid =>
      simp only [hwritten]
      obtain ⟨_, -, hupsert⟩ := bind_eq_ok.mp hwritten
      obtain ⟨-, rfl⟩ := upsert_eq_ok.mp hupsert
      exact .none (unique_put h) _ rfl
  | verifyMemory call now => exact verify_recorded h call
  | forgetMemory memoryId by' reason now => exact forget_recorded h memoryId reason
  | consolidate tenant by' now => exact consolidate_recorded h tenant
  | recallMemories call now =>
    show Recorded P [] db (recallMemories P db call now).2
    unfold recallMemories
    cases call.ranked P db now with
    | error e => exact .none h _ rfl
    | ok top =>
      show Recorded P [] db (List.foldl (Db.touch · now) db _)
      generalize (top.map fun hit => hit.2.memoryId) = ids
      induction ids generalizing db with
      | nil => exact .none h _ rfl
      | cons memoryId ids ih =>
        have htouch : Recorded P [] db (db.touch now memoryId) :=
          .none (unique_touch h now memoryId) _ rfl
        exact htouch.append (ih htouch.unique)

/-- A call sets out to record at most one transition of a memory. -/
theorem nodup_pending (h : db.Unique) (call : Call F) :
    ((call.pending P db).map Transition.memoryId).Nodup := by
  cases call with
  | storeMemory => exact List.nodup_nil
  | recallMemories => exact List.nodup_nil
  | verifyMemory call now =>
    show ((call.pending db).map Transition.memoryId).Nodup
    unfold VerifyCall.pending
    cases call.checked db with
    | error e => exact List.nodup_nil
    | ok r => exact List.nodup_singleton _
  | forgetMemory memoryId by' reason now =>
    show ((forgetPending db memoryId by' reason).map Transition.memoryId).Nodup
    unfold forgetPending
    cases db.get memoryId with
    | error e => exact List.nodup_nil
    | ok item =>
      show (List.map Transition.memoryId (if item.archived = true then _ else _)).Nodup
      split
      · exact List.nodup_nil
      · exact List.nodup_singleton _
  | consolidate tenant by' now =>
    have hids : (consolidatePending P db tenant by' now).map Transition.memoryId =
        (groupsOf (db.listActive P tenant 1000)).flatMap fun group =>
          ((mergesOf P now group).flatMap Merge.consumed).map MemoryItem.memoryId := by
      unfold consolidatePending
      rw [List.map_map]
      show List.map (fun p : Str × MemoryItem F => p.2.memoryId) _ = _
      rw [pairs_ids, List.flatMap_assoc, List.map_flatMap]
    show ((consolidatePending P db tenant by' now).map Transition.memoryId).Nodup
    rw [hids]
    have hgroups :
        ((groupsOf (db.listActive P tenant 1000)).flatten.map MemoryItem.memoryId).Nodup :=
      nodup_groupsOf (nodup_listActive h 1000)
    generalize groupsOf (db.listActive P tenant 1000) = groups at hgroups ⊢
    -- what is consumed of a group is part of it
    have hpart : ∀ group : List (MemoryItem F),
        (((mergesOf P now group).flatMap Merge.consumed).map MemoryItem.memoryId).Subperm
        (group.map MemoryItem.memoryId) := by
      intro group
      rcases mergesOf_planned P now with hnone | hplan
      · rw [hnone]
        exact List.nil_subperm
      · have hall :=
          ((members_perm (mergesOf P now group)).map MemoryItem.memoryId).symm.trans hplan.ids
        rw [List.map_append] at hall
        exact (List.sublist_append_right _ _).subperm.trans hall.subperm
    induction groups with
    | nil => exact List.nodup_nil
    | cons group groups ih =>
      rw [List.flatten_cons, List.map_append, List.nodup_append] at hgroups
      obtain ⟨hgroup, hrest, hdisjoint⟩ := hgroups
      rw [List.flatMap_cons, List.nodup_append]
      obtain ⟨part, hpartPerm, hpartSub⟩ := hpart group
      refine ⟨hpartPerm.nodup_iff.mp (hgroup.sublist hpartSub), ih hrest, fun a ha b hb => ?_⟩
      obtain ⟨other, hother, hb⟩ := List.mem_flatMap.mp hb
      refine hdisjoint a ((hpart group).subset ha) b ?_
      rw [List.map_flatten, List.mem_flatten]
      exact ⟨_, List.mem_map_of_mem hother, (hpart other).subset hb⟩

/-! ## Runs -/

/-- The calls that leave a trail of one row a memory: what is recorded is the first transition of
its memory, and its texts have no colon. -/
def Call.Single (P : Platform F) (db : Db F) (call : Call F) : Prop :=
  ∀ t ∈ call.pending P db, Encodes t.texts → db.trail t.memoryId = [] ∧ ∀ s ∈ t.texts,
    (58 : CodePoint) ∉ s

structure TrailInv (P : Platform F) (db : Db F) : Prop where
  unique : db.Unique
  written : ∀ row ∈ db.history, Written P row
  single : ∀ memoryId, (db.trail memoryId).length ≤ 1
  plain : ∀ row ∈ db.history, ∀ s ∈ row.transition.texts, (58 : CodePoint) ∉ s

theorem trail_append {rows : List (VerificationRow F)} (h : db'.history = db.history ++ rows)
    (memoryId : Str) :
    db'.trail memoryId = db.trail memoryId ++ rows.filter fun row => row.memoryId = memoryId := by
  unfold Db.trail
  rw [h, List.filter_append]

theorem TrailInv.call (h : TrailInv P db) {call : Call F} (hsingle : call.Single P db) :
    TrailInv P (call.run P db) := by
  obtain ⟨hunique, rows, hrows, hwritten, hsub⟩ := call_recorded (P := P) h.unique call
  -- a row of the call is of a transition that could be recorded
  have hrow : ∀ row ∈ rows, db.trail row.memoryId = [] ∧ ∀ s ∈ row.transition.texts,
      (58 : CodePoint) ∉ s := by
    intro row hmem
    obtain ⟨t, ht, htexts⟩ := List.mem_map.mp (hsub.subset (List.mem_map_of_mem hmem))
    obtain ⟨record, hrecord, -⟩ := (hwritten row hmem).recordHash
    have henc : Encodes row.transition.texts := encodes_of_record (by rw [hrecord]; rfl)
    have hid : t.memoryId = row.memoryId := (List.cons.inj htexts).1
    rw [← htexts] at henc ⊢
    rw [← hid]
    exact hsingle t ht henc
  have hids : (rows.map VerificationRow.memoryId).Nodup := by
    have hheads := hsub.map (fun texts : List Str => texts.headD [])
    rw [List.map_map, List.map_map] at hheads
    exact (nodup_pending h.unique call).sublist hheads
  refine ⟨hunique, fun row hmem => ?_, fun memoryId => ?_, fun row hmem => ?_⟩
  · rw [hrows] at hmem
    rcases List.mem_append.mp hmem with hmem | hmem
    · exact h.written row hmem
    · exact hwritten row hmem
  · rw [trail_append hrows, List.length_append]
    by_cases hany : ∃ row ∈ rows, row.memoryId = memoryId
    · obtain ⟨row, hmem, hid⟩ := hany
      have hfirst := (hrow row hmem).1
      rw [hid] at hfirst
      have hcount : (rows.filter fun row => row.memoryId = memoryId).length ≤ 1 := by
        have hle := List.nodup_iff_count_le_one.mp hids memoryId
        rw [List.count, List.countP_map, List.countP_eq_length_filter] at hle
        simpa only [Function.comp_def, beq_eq_decide] using hle
      rw [hfirst, List.length_nil]
      omega
    · have hnone : (rows.filter fun row => row.memoryId = memoryId) = [] := by
        rw [List.filter_eq_nil_iff]
        intro row hmem hid
        exact hany ⟨row, hmem, of_decide_eq_true hid⟩
      rw [hnone, List.length_nil]
      exact h.single memoryId
  · rw [hrows] at hmem
    rcases List.mem_append.mp hmem with hmem | hmem
    · exact h.plain row hmem
    · exact (hrow row hmem).2

theorem run_trailInv {calls : List (Call F)} (hrun : Machine.run (step P) Db.empty calls = some db)
    (h : Machine.Along (step P) (Call.Single P) Db.empty calls) : TrailInv P db := by
  have hempty : TrailInv P (Db.empty : Db F) :=
    ⟨List.nodup_nil, fun _ hrow => (by cases hrow), fun _ => Nat.zero_le 1, fun _ hrow =>
      (by cases hrow)⟩
  refine Machine.run_invariant_along (I := TrailInv P) (fun call _ s t hs hcall hstep => ?_)
    hempty h hrun
  obtain rfl := Option.some.inj hstep
  exact hs.call hcall

theorem text_injective {s t : VerificationState} (h : s.text = t.text) : s = t := by
  cases s <;> cases t <;> first | rfl | exact absurd h (by decide)

theorem text_plain (s : VerificationState) : (58 : CodePoint) ∉ s.text := by cases s <;> decide

/-- Two records of texts without a colon, with one hash. -/
theorem row_eq_of_hash (hinj : Function.Injective P.sha256) {a b : VerificationRow F}
    (ha : Written P a) (hb : Written P b)
    (hplain : ∀ s ∈ a.transition.texts, (58 : CodePoint) ∉ s) (hplain' : ∀ s ∈ b.transition.texts,
      (58 : CodePoint) ∉ s)
    (hhash : a.recordHash = b.recordHash) (hat : a.at' = b.at') : a = b := by
  obtain ⟨record, hrecord, hash⟩ := ha.recordHash
  obtain ⟨record', hrecord', hash'⟩ := hb.recordHash
  rw [hash, hash'] at hhash
  obtain rfl := hinj (hex_injective hhash)
  have hjoined := encode_injective hrecord hrecord'
  have hno : ∀ {t : Transition}, (∀ s ∈ t.texts, (58 : CodePoint) ∉ s) →
    ∀ s ∈ [t.memoryId, t.fromState.text, t.toState.text,
      t.by', t.reason, t.requestedBy, t.requestId, t.serverVersion, []], (58 : CodePoint) ∉ s := by
    intro t ht
    unfold Transition.texts at ht
    simp only [List.forall_mem_cons] at ht ⊢
    obtain ⟨hid, hby, hreason, hrequested, hrequest, hserver, -⟩ := ht
    exact ⟨hid, text_plain _, text_plain _, hby, hreason, hrequested, hrequest, hserver,
      List.not_mem_nil, fun s hs => (by cases hs)⟩
  have hpartsA := hno hplain
  have hpartsB := hno hplain'
  have hparts := intercalate_injective (by rfl) hpartsA hpartsB hjoined
  injection hparts with hid hrest
  injection hrest with hfrom hrest
  injection hrest with hto hrest
  injection hrest with hby hrest
  injection hrest with hreason hrest
  injection hrest with hrequested hrest
  injection hrest with hrequest hrest
  injection hrest with hserver hrest
  have hlink : a.previousHash = b.previousHash := ha.previousHash.trans hb.previousHash.symm
  have hrecordHash : a.recordHash = b.recordHash := hash.trans hash'.symm
  exact VerificationRow.ext hid (text_injective hfrom) (text_injective hto) hby hrequested hreason
    hat hrequest hserver hlink hrecordHash

/-- **The trail along runs of single transitions**: linked, and two histories with one last hash are
the same history where their rows are of the same times. -/
theorem run_trail (hinj : Function.Injective P.sha256) {calls calls' : List (Call F)} {s t : Db F}
    (hs : Machine.run (step P) Db.empty calls = some s)
    (ht : Machine.run (step P) Db.empty calls' = some t)
    (hcalls : Machine.Along (step P) (Call.Single P) Db.empty calls)
    (hcalls' : Machine.Along (step P) (Call.Single P) Db.empty calls') :
    (∀ memoryId, Linked (s.trail memoryId)) ∧ ∀ memoryId memoryId',
      lastHash (s.trail memoryId) = lastHash (t.trail memoryId') →
      (s.trail memoryId).map VerificationRow.at' = (t.trail memoryId').map VerificationRow.at' →
      s.trail memoryId = t.trail memoryId' := by
  have hinv := run_trailInv hs hcalls
  have hinv' := run_trailInv ht hcalls'
  have hmem : ∀ {db : Db F} {memoryId : Str} {row : VerificationRow F}, row ∈ db.trail memoryId →
      row ∈ db.history :=
    fun h => (List.mem_filter.mp h).1
  refine ⟨fun memoryId => ?_, fun memoryId memoryId' hlast hat => ?_⟩
  · have hone := hinv.single memoryId
    unfold Linked
    match hrows : s.trail memoryId with
    | [] => exact .nil
    | [row] => exact .singleton row
    | _ :: _ :: _ =>
      rw [hrows] at hone
      simp at hone
  · have hone := hinv.single memoryId
    have hone' := hinv'.single memoryId'
    unfold lastHash at hlast
    match hrows : s.trail memoryId, hrows' : t.trail memoryId' with
    | [], [] => rfl
    | [row], [row'] =>
      rw [hrows, hrows'] at hlast hat
      have hrow : row ∈ s.history := hmem (by rw [hrows]; exact List.mem_cons_self)
      have hrow' : row' ∈ t.history := hmem (by rw [hrows']; exact List.mem_cons_self)
      rw [row_eq_of_hash hinj (hinv.written row hrow) (hinv'.written row' hrow')
        (hinv.plain row hrow) (hinv'.plain row' hrow')
        (Option.some.inj hlast) (List.cons.inj hat).1]
    | [], _ :: _ =>
      rw [hrows, hrows'] at hat
      cases hat
    | _ :: _, [] =>
      rw [hrows, hrows'] at hat
      cases hat
    | _ :: _ :: _, _ =>
      rw [hrows] at hone
      simp at hone
    | _, _ :: _ :: _ =>
      rw [hrows'] at hone'
      simp at hone'

/-- `verify_memory("m", "VERIFIED", by=by, reason=reason)` -/
def verifyWith (by' reason : Str) : VerifyCall := ⟨lit "m", .verified, by', [], reason, [], [], []⟩

theorem along_verify (call : VerifyCall) (reason : Str)
    (hpending : (Call.verifyMemory call 1).pending Platform.whole
      (storeX.run Platform.whole Db.empty) = [call.transition itemX reason])
    (htexts : ∀ s ∈ (call.transition itemX reason).texts, (58 : CodePoint) ∉ s) :
    Machine.Along (step Platform.whole) (Call.Single Platform.whole) Db.empty
      [storeX, .verifyMemory call 1] := by
  refine ⟨fun t ht => (by cases ht), fun s hs => ⟨?_, fun _ _ => trivial⟩⟩
  obtain rfl := Option.some.inj hs
  unfold Call.Single
  rw [hpending, List.forall_mem_singleton]
  exact fun _ => ⟨rfl, htexts⟩

/-- Two runs whose verifications give different reasons. -/
theorem run_trail_verified : ∃ s t,
    Machine.run (step Platform.whole) Db.empty [storeX, verifyM .verified] = some s ∧
    Machine.run (step Platform.whole) Db.empty
      [storeX, .verifyMemory (verifyWith (lit "op") (lit "seen")) 1] = some t ∧
    (∀ memoryId, Linked (s.trail memoryId)) ∧ ∀ memoryId memoryId',
      lastHash (s.trail memoryId) = lastHash (t.trail memoryId') →
      (s.trail memoryId).map VerificationRow.at' = (t.trail memoryId').map VerificationRow.at' →
      s.trail memoryId = t.trail memoryId' := by
  have hinj : Function.Injective Platform.whole.sha256 := fun a b h => (List.cons.inj h).2
  have hfirst : Machine.Along (step Platform.whole) (Call.Single Platform.whole) Db.empty
      [storeX, verifyM .verified] := along_verify (callM .verified) [] rfl (by decide)
  have hsecond : Machine.Along (step Platform.whole) (Call.Single Platform.whole) Db.empty
      [storeX, .verifyMemory (verifyWith (lit "op") (lit "seen")) 1] :=
    along_verify (verifyWith (lit "op") (lit "seen")) (lit "seen") rfl (by decide)
  exact ⟨_, _, rfl, rfl, run_trail hinj rfl rfl hfirst hsecond⟩

/-- A verification that passes its checks. -/
theorem verify_ok {call : VerifyCall} {reason : Str} (h : call.checked db = .ok (item, reason))
    (hitem : Encodes item.texts)
    (htexts : Encodes (call.transition item reason).texts) (now : F) : ∃ record,
      encode ((call.transition item reason).record []) = some record ∧
      (verifyMemory P db call now).2 =
        ⟨(db.put (item.moved call.toState now)).items,
          db.history ++ [(call.transition item reason).row P [] now record]⟩ := by
  have hmoved : Encodes (item.moved call.toState now).texts := hitem
  obtain ⟨record, hrecord, htransition⟩ := transition_ok P now hmoved htexts
  refine ⟨record, hrecord, ?_⟩
  rw [verifyMemory_eq h, htransition]

/-- The second transition of a memory is not linked to the first; and a colon in the reason makes
the records of two actors one. -/
theorem not_trail :
    (∃ s, Machine.run (step Platform.whole) Db.empty
      [storeX, verifyM .verified, verifyM .contradicted] = some s ∧ ¬ Linked (s.trail (lit "m"))) ∧
    ∃ s t, Machine.run (step Platform.whole) Db.empty
      [storeX, .verifyMemory (verifyWith (lit "op") (lit "x:y")) 1] = some s ∧
      Machine.run (step Platform.whole) Db.empty
      [storeX, .verifyMemory (verifyWith (lit "op:x") (lit "y")) 1] = some t ∧
      lastHash (s.trail (lit "m")) = lastHash (t.trail (lit "m")) ∧
      (s.trail (lit "m")).map VerificationRow.by' ≠
          (t.trail (lit "m")).map VerificationRow.by' := by
  have hitem : Encodes itemX.texts := by decide
  constructor
  · refine ⟨_, rfl, fun h => ?_⟩
    have hchecked : (callM .verified).checked (storeX.run Platform.whole Db.empty) =
      .ok (itemX, []) := rfl
    obtain ⟨first, -, hfirst⟩ := verify_ok (P := Platform.whole) hchecked hitem (by decide) 1
    have hagain : (callM .contradicted).checked
      ((verifyM .verified).run Platform.whole (storeX.run Platform.whole Db.empty)) =
        .ok (itemX.moved .verified 1, []) := by
      show VerifyCall.checked _ (verifyMemory Platform.whole _ _ 1).2 = _
      rw [hfirst]
      rfl
    obtain ⟨second, -, hsecond⟩ := verify_ok (P := Platform.whole) hagain hitem (by decide) 1
    have hlinked :
      Linked (Db.trail (verifyMemory Platform.whole ((verifyM .verified).run Platform.whole
      (storeX.run Platform.whole Db.empty)) (callM .contradicted) 1).2 (lit "m")) := h
    rw [hsecond] at hlinked
    have hrun : (verifyM .verified).run Platform.whole (storeX.run Platform.whole Db.empty) = _ :=
      hfirst
    rw [hrun] at hlinked
    have hpair := List.isChain_pair.mp hlinked
    have hne : ([] : Str) ≠ hex (Platform.whole.sha256 first) := (List.cons_ne_nil _ _).symm
    exact hne hpair
  · have hchecked : (verifyWith (lit "op") (lit "x:y")).checked
      (storeX.run Platform.whole Db.empty) = .ok (itemX, lit "x:y") := rfl
    have hchecked' : (verifyWith (lit "op:x") (lit "y")).checked
      (storeX.run Platform.whole Db.empty) = .ok (itemX, lit "y") := rfl
    obtain ⟨record, hrecord, hs⟩ := verify_ok (P := Platform.whole) hchecked hitem (by decide) 1
    obtain ⟨record', hrecord', ht⟩ := verify_ok (P := Platform.whole) hchecked' hitem (by decide) 1
    have hsame : record = record' := by
      refine Option.some.inj (hrecord.symm.trans (Eq.trans ?_ hrecord'))
      exact congrArg encode (by decide +kernel)
    refine ⟨_, _, rfl, rfl, ?_, ?_⟩
    · show lastHash (Db.trail (verifyMemory Platform.whole _ _ 1).2 _) =
        lastHash (Db.trail (verifyMemory Platform.whole _ _ 1).2 _)
      rw [hs, ht, hsame]
      rfl
    · show (Db.trail (verifyMemory Platform.whole _ _ 1).2 _).map _ ≠
        (Db.trail (verifyMemory Platform.whole _ _ 1).2 _).map _
      rw [hs, ht]
      intro hby
      have hactors : strip (lit "op") = strip (lit "op:x") := (List.cons.inj hby).1
      exact absurd hactors (by decide)

end Memory
