import Msb.Infra.CutText
import Msb.Memory.Fabric

/-!
# The writes of the memory fabric

Whatever a call does to the tables is a sequence of single writes: a memory is created, a memory is
written again with the verification state it has, a memory moves to another state and a row of its
history says so, or a memory is touched. What is to hold of the tables is shown of one write; what a
call does is shown once, as the writes it makes.

* `Inv.write` — a write keeps the invariant of the tables
* `consolidate_writes` — a consolidation makes only such writes
-/

namespace Memory

open Py

variable {F : Type} {P : Platform F} {db db' : Db F} {item old : MemoryItem F} {tenant : Str}

/-! ## Texts -/

theorem encodes_append {a b : List Str} : Encodes (a ++ b) ↔ Encodes a ∧ Encodes b :=
  List.forall_mem_append

theorem encodes_cons {s : Str} {a : List Str} :
    Encodes (s :: a) ↔ (encode s).isSome = true ∧ Encodes a :=
  List.forall_mem_cons

/-- A text that is joined from texts with a UTF-8 form. -/
theorem encode_intercalate {sep : Str} (hsep : (encode sep).isSome = true) : ∀ {texts : List Str},
    Encodes texts → (encode (sep.intercalate texts)).isSome = true
  | [], _ => rfl
  | [s], h => by
    rw [List.intercalate_singleton]
    exact h s List.mem_cons_self
  | s :: t :: texts, h => by
    rw [List.intercalate_cons_cons, encode_append_isSome, encode_append_isSome]
    have htail : Encodes (t :: texts) := fun u hu => h u (List.mem_cons_of_mem _ hu)
    exact ⟨⟨h s List.mem_cons_self, hsep⟩, encode_intercalate hsep htail⟩

theorem bindTexts_eq_ok {texts : List Str} {u : Unit} :
    bindTexts texts = .ok u ↔ Encodes texts := by
  unfold bindTexts
  rw [raiseIf_eq_ok, not_not]

theorem text_encodes (s : VerificationState) : (encode s.text).isSome = true := by
  cases s <;> decide

theorem Transition.record_encodes {t : Transition} (h : Encodes t.texts) :
    (encode (t.record [])).isSome = true := by
  refine encode_intercalate (by decide) ?_
  unfold Transition.texts at h
  simp only [encodes_cons] at h ⊢
  obtain ⟨hid, hby, hreason, hrequested, hrequest, hserver, -⟩ := h
  exact ⟨hid, text_encodes _, text_encodes _, hby, hreason, hrequested, hrequest, hserver, rfl,
    fun s hs => (by cases hs)⟩

/-! ## The store -/

theorem upsert_eq_ok : db.upsert item = .ok db' ↔ Encodes item.texts ∧ db.put item = db' := by
  unfold Db.upsert
  rw [bind_eq_ok]
  constructor
  · rintro ⟨u, hu, h⟩
    exact ⟨bindTexts_eq_ok.mp hu, Except.ok.inj h⟩
  · rintro ⟨henc, rfl⟩
    exact ⟨(), bindTexts_eq_ok.mpr henc, rfl⟩

/-- The row of a transition. -/
def Transition.row (P : Platform F) (t : Transition) (previousHash : Str) (now : F) (record : Bytes)
    : VerificationRow F :=
  ⟨t.memoryId, t.fromState, t.toState, t.by', t.requestedBy, t.reason, now, t.requestId,
    t.serverVersion, previousHash, hex (P.sha256 record)⟩

theorem recordVerification_eq_ok {t : Transition} {previousHash : Str} {now : F} :
    db.recordVerification P t previousHash now = .ok db' ↔ ∃ record,
    encode (t.record previousHash) = some record ∧
      { db with history := db.history ++ [t.row P previousHash now record] } = db' := by
  unfold Db.recordVerification
  cases encode (t.record previousHash) with
  | none => exact ⟨fun h => (by cases h), fun ⟨_, h, _⟩ => (by cases h)⟩
  | some record =>
    constructor
    · intro h
      exact ⟨record, rfl, Except.ok.inj h⟩
    · rintro ⟨_, h, rfl⟩
      obtain rfl := Option.some.inj h
      rfl

/-- The query does not select the hash, so no row links to another one. -/
theorem previousHash_eq (memoryId : Str) : db.previousHash P memoryId = [] := by
  unfold Db.previousHash
  split
  · rfl
  · next row hrow =>
    obtain ⟨r, -, rfl⟩ := List.mem_map.mp (List.mem_of_getLast? hrow)
    rfl

theorem get_eq_ok {memoryId : Str} : db.get memoryId = .ok item ↔
    (encode memoryId).isSome = true ∧ db.find memoryId = some item := by
  unfold Db.get
  rw [bind_eq_ok]
  constructor
  · rintro ⟨u, hu, h⟩
    cases hfind : db.find memoryId with
    | none =>
      rw [hfind] at h
      cases h
    | some found =>
      rw [hfind] at h
      obtain rfl := Except.ok.inj h
      exact ⟨bindTexts_eq_ok.mp hu _ List.mem_cons_self, rfl⟩
  · rintro ⟨henc, hfind⟩
    refine ⟨(), bindTexts_eq_ok.mpr fun s hs => ?_, ?_⟩
    · rw [List.mem_singleton.mp hs]
      exact henc
    · rw [hfind]
      rfl

/-- No two memories share an id. -/
abbrev Db.Unique (db : Db F) : Prop := Keyed.Unique MemoryItem.memoryId db.items

theorem stored_memoryId (o : Option (MemoryItem F)) :
    (o.elim item item.over).memoryId = item.memoryId := by
  cases o <;> rfl

theorem find_put (h : db.Unique) (memoryId : Str) : (db.put item).find memoryId =
    if memoryId = item.memoryId then some ((db.find item.memoryId).elim item item.over)
    else db.find memoryId := by
  show Keyed.find MemoryItem.memoryId memoryId (Keyed.put MemoryItem.memoryId _ db.items) = _
  rw [Keyed.find_put h, stored_memoryId]
  rfl

/-- A touched memory is the same memory. -/
theorem touch_fields (item : MemoryItem F) (now : F) (touched : Str) :
    (item.touch now touched).memoryId = item.memoryId ∧ (item.touch now touched).tenant =
    item.tenant ∧
      (item.touch now touched).content = item.content ∧ (item.touch now touched).texts =
      item.texts ∧
      (item.touch now touched).verificationState = item.verificationState ∧
      (item.touch now touched).archived = item.archived := by
  unfold MemoryItem.touch
  split
  · exact ⟨rfl, rfl, rfl, rfl, rfl, rfl⟩
  · exact ⟨rfl, rfl, rfl, rfl, rfl, rfl⟩

theorem find_touch (now : F) (touched memoryId : Str) :
    (db.touch now touched).find memoryId = (db.find memoryId).map (MemoryItem.touch now touched) :=
  Keyed.find_map fun item => (touch_fields item now touched).1

theorem find_memoryId {memoryId : Str} (h : db.find memoryId = some item) :
    item.memoryId = memoryId :=
  (Keyed.find_key h).2

theorem unique_put (h : db.Unique) : (db.put item).Unique := Keyed.Unique.put h

theorem unique_touch (h : db.Unique) (now : F) (memoryId : Str) :
    (db.touch now memoryId).Unique := by
  show ((db.items.map _).map MemoryItem.memoryId).Nodup
  rw [List.map_map]
  have hkeys : MemoryItem.memoryId ∘ MemoryItem.touch now memoryId = MemoryItem.memoryId :=
    funext fun item => (touch_fields item now memoryId).1
  rw [hkeys]
  exact h

theorem mem_listActive {limit : Nat} (h : item ∈ db.listActive P tenant limit) :
    item ∈ db.items ∧ item.tenant = tenant ∧ item.archived = false := by
  have hmem := List.mem_mergeSort.mp (List.mem_of_mem_take h)
  simpa using hmem

theorem nodup_listActive (h : db.Unique) (limit : Nat) :
    ((db.listActive P tenant limit).map MemoryItem.memoryId).Nodup := by
  have hsorted :=
    (List.mergeSort_perm (db.items.filter fun item => item.tenant = tenant ∧ item.archived = false)
    (ranksBefore P)).map MemoryItem.memoryId
  have hfilter : ((db.items.filter fun item => item.tenant = tenant ∧ item.archived = false).map
      MemoryItem.memoryId).Nodup := h.sublist (List.filter_sublist.map _)
  exact (hsorted.nodup_iff.mpr hfilter).sublist ((List.take_sublist limit _).map _)

/-! ## Paths -/

/-- The rows lead from one state to the other, by allowed transitions. -/
def Path : VerificationState → List (VerificationRow F) → VerificationState → Prop
  | s, [], t => s = t
  | s, row :: rows, t => row.fromState = s ∧ row.toState ∈ transitions s ∧ Path row.toState rows t

theorem Path.concat {row : VerificationRow F} {t : VerificationState} (hfrom : row.fromState = t)
    (hto : row.toState ∈ transitions t) : ∀ {rows : List (VerificationRow F)}
    {s : VerificationState},
    Path s rows t → Path s (rows ++ [row]) row.toState
  | [], _, h => by
    obtain rfl := h
    exact ⟨hfrom, hto, rfl⟩
  | _ :: _, _, ⟨h, hmem, hrest⟩ => ⟨h, hmem, hrest.concat hfrom hto⟩

theorem trail_concat (items : List (MemoryItem F)) (row : VerificationRow F) (memoryId : Str) :
    Db.trail ⟨items, db.history ++ [row]⟩ memoryId =
      if row.memoryId = memoryId then db.trail memoryId ++ [row] else db.trail memoryId := by
  unfold Db.trail
  rw [List.filter_append]
  by_cases h : row.memoryId = memoryId
  · rw [if_pos h, List.filter_cons_of_pos (by simpa using h), List.filter_nil]
  · rw [if_neg h, List.filter_cons_of_neg (by simpa using h), List.filter_nil, List.append_nil]

/-! ## Single writes -/

/-- A single write, on behalf of `tenant`. -/
inductive Write (tenant : Str) (db : Db F) : Db F → Prop where
  | create {item : MemoryItem F} (hnew : db.find item.memoryId = none)
    (hstate : item.verificationState = .unverified)
      (harchived : item.archived = false) (henc : Encodes item.texts) :
      Write tenant db (db.put item)
  | rewrite {item old : MemoryItem F} (hold : db.find item.memoryId = some old)
      (hstate : item.verificationState = old.verificationState)
      (harchived : item.archived = old.archived)
      (henc : Encodes item.texts) (htenant : old.tenant = tenant ∨ item.content = old.content) :
      Write tenant db (db.put item)
  | move {item old : MemoryItem F} {row : VerificationRow F}
    (hold : db.find item.memoryId = some old)
      (hid : row.memoryId = item.memoryId) (hfrom : row.fromState = old.verificationState)
      (hto : row.toState ∈ transitions old.verificationState)
        (hstate : item.verificationState = row.toState)
      (harchived : item.archived = true ↔ row.toState = .deprecated) (henc : Encodes item.texts)
      (htenant : old.tenant = tenant) : Write tenant db ⟨(db.put item).items, db.history ++ [row]⟩
  | touch (now : F) (memoryId : Str) : Write tenant db (db.touch now memoryId)

/-- What is to hold of a memory and of the rows of its history. -/
structure Tracked (db : Db F) (item : MemoryItem F) : Prop where
  path : Path .unverified (db.trail item.memoryId) item.verificationState
  archived_iff : item.archived = true ↔ item.verificationState = .deprecated

/-- The invariant of the tables. -/
structure Inv (db : Db F) : Prop where
  unique : db.Unique
  encodes : ∀ memoryId item, db.find memoryId = some item → Encodes item.texts
  known : ∀ row ∈ db.history, (db.find row.memoryId).isSome = true
  tracked : ∀ memoryId item, db.find memoryId = some item → Tracked db item

theorem inv_empty : Inv (Db.empty : Db F) where
  unique := List.nodup_nil
  encodes _ _ h := by cases h
  known _ h := by cases h
  tracked _ _ h := by cases h

/-- A memory without rows. -/
theorem Inv.trail_eq_nil (h : Inv db) {memoryId : Str} (hnew : db.find memoryId = none) :
    db.trail memoryId = [] := by
  unfold Db.trail
  rw [List.filter_eq_nil_iff]
  intro row hrow hid
  have hsome := h.known row hrow
  rw [of_decide_eq_true hid, hnew] at hsome
  cases hsome

theorem encodes_over (hitem : Encodes item.texts) (hold : Encodes old.texts) :
    Encodes (item.over old).texts := by
  unfold MemoryItem.texts MemoryItem.over at *
  simp only [encodes_append, encodes_cons] at *
  obtain ⟨⟨⟨hid, hcontent, hagent, hsource, htask, -, hproject, htech, hnil⟩, htags⟩, hrel⟩ := hitem
  obtain ⟨⟨⟨-, -, -, -, -, htenant, -⟩, -⟩, -⟩ := hold
  exact ⟨⟨⟨hid, hcontent, hagent, hsource, htask, htenant, hproject, htech, hnil⟩, htags⟩, hrel⟩

/-- **A write keeps the invariant.** -/
theorem Inv.write (h : Inv db) (hwrite : Write tenant db db') : Inv db' := by
  cases hwrite with
  | @create item hnew hstate harchived henc =>
    -- the new row has no history, and starts where a path starts
    have hfind : ∀ memoryId, (db.put item).find memoryId = if memoryId = item.memoryId
        then some item else db.find memoryId := by
      intro memoryId
      rw [find_put h.unique, hnew]
      rfl
    refine ⟨unique_put h.unique, fun memoryId found hf => ?_, fun row hrow => ?_,
      fun memoryId found hf => ?_⟩
    · rw [hfind] at hf
      split at hf
      · obtain rfl := Option.some.inj hf
        exact henc
      · exact h.encodes memoryId found hf
    · rw [hfind]
      split
      · rfl
      · exact h.known row hrow
    · rw [hfind] at hf
      split at hf
      · obtain rfl := Option.some.inj hf
        refine ⟨?_, ?_⟩
        · show Path .unverified (db.trail item.memoryId) item.verificationState
          rw [h.trail_eq_nil hnew, hstate]
          rfl
        · rw [harchived, hstate]
          decide
      · exact ⟨(h.tracked memoryId found hf).path, (h.tracked memoryId found hf).archived_iff⟩
  | @rewrite item old hold hstate harchived henc htenant =>
    -- the state and the archive flag are those of the row that is written over
    have hfind : ∀ memoryId, (db.put item).find memoryId =
        if memoryId = item.memoryId then some (item.over old) else db.find memoryId := by
      intro memoryId
      rw [find_put h.unique, hold]
      rfl
    refine ⟨unique_put h.unique, fun memoryId found hf => ?_, fun row hrow => ?_,
      fun memoryId found hf => ?_⟩
    · rw [hfind] at hf
      split at hf
      · obtain rfl := Option.some.inj hf
        exact encodes_over henc (h.encodes _ _ hold)
      · exact h.encodes memoryId found hf
    · rw [hfind]
      split
      · rfl
      · exact h.known row hrow
    · rw [hfind] at hf
      split at hf
      · obtain rfl := Option.some.inj hf
        have hid := find_memoryId hold
        obtain ⟨hpath, harch⟩ := h.tracked _ _ hold
        rw [hid] at hpath
        refine ⟨?_, ?_⟩
        · show Path .unverified (db.trail item.memoryId) item.verificationState
          rw [hstate]
          exact hpath
        · show item.archived = true ↔ item.verificationState = .deprecated
          rw [harchived, hstate]
          exact harch
      · exact ⟨(h.tracked memoryId found hf).path, (h.tracked memoryId found hf).archived_iff⟩
  | @move item old row hold hid hfrom hto hstate harchived henc htenant =>
    -- the path of the one that moves grows by the row, and no other does
    have hfind : ∀ memoryId, Db.find ⟨(db.put item).items, db.history ++ [row]⟩ memoryId =
        if memoryId = item.memoryId then some (item.over old) else db.find memoryId := by
      intro memoryId
      show (db.put item).find memoryId = _
      rw [find_put h.unique, hold]
      rfl
    refine ⟨unique_put h.unique, fun memoryId found hf => ?_, fun r hr => ?_,
      fun memoryId found hf => ?_⟩
    · rw [hfind] at hf
      split at hf
      · obtain rfl := Option.some.inj hf
        exact encodes_over henc (h.encodes _ _ hold)
      · exact h.encodes memoryId found hf
    · rw [hfind]
      split
      · rfl
      · next hne =>
        rcases List.mem_append.mp hr with hr | hr
        · exact h.known r hr
        · rw [List.mem_singleton.mp hr] at hne
          exact absurd hid hne
    · rw [hfind] at hf
      split at hf
      · obtain rfl := Option.some.inj hf
        obtain ⟨hpath, -⟩ := h.tracked _ _ hold
        rw [find_memoryId hold] at hpath
        refine ⟨?_, ?_⟩
        · rw [trail_concat]
          show Path .unverified (if row.memoryId = item.memoryId then db.trail item.memoryId ++
            [row] else _) item.verificationState
          rw [if_pos hid, hstate]
          exact hpath.concat hfrom hto
        · show item.archived = true ↔ item.verificationState = .deprecated
          rw [hstate]
          exact harchived
      · next hne =>
        obtain ⟨hpath, harch⟩ := h.tracked memoryId found hf
        refine ⟨?_, harch⟩
        rw [trail_concat, if_neg]
        · exact hpath
        · rw [hid, find_memoryId hf]
          exact Ne.symm hne
  | touch now touched =>
    -- the scores alone change
    refine ⟨unique_touch h.unique now touched, fun memoryId found hf => ?_, fun row hrow => ?_,
      fun memoryId found hf => ?_⟩
    · rw [find_touch] at hf
      obtain ⟨before, hb, rfl⟩ := Option.map_eq_some_iff.mp hf
      rw [(touch_fields before now touched).2.2.2.1]
      exact h.encodes memoryId before hb
    · rw [find_touch, Option.isSome_map]
      exact h.known row hrow
    · rw [find_touch] at hf
      obtain ⟨before, hb, rfl⟩ := Option.map_eq_some_iff.mp hf
      obtain ⟨hpath, harch⟩ := h.tracked memoryId before hb
      obtain ⟨hid, -, -, -, hstate, harchived⟩ := touch_fields before now touched
      refine ⟨?_, ?_⟩
      · rw [hid, hstate]
        exact hpath
      · rw [hstate, harchived]
        exact harch

/-- What a call on behalf of `tenant` leaves of the memories there are. -/
structure Kept (tenant : Str) (s t : Db F) : Prop where
  kept : ∀ memoryId item, s.find memoryId = some item → ∃ item', t.find memoryId = some item' ∧
    item'.tenant = item.tenant ∧
    (item.verificationState = .deprecated → item'.verificationState = .deprecated) ∧
    (item.tenant ≠ tenant → item'.content = item.content ∧
      item'.verificationState = item.verificationState)

theorem Kept.refl (s : Db F) : Kept tenant s s :=
  ⟨fun _ item h => ⟨item, h, rfl, id, fun _ => ⟨rfl, rfl⟩⟩⟩

theorem Kept.trans {s t u : Db F} (h : Kept tenant s t) (h' : Kept tenant t u) :
    Kept tenant s u where
  kept memoryId item hfind := by
    obtain ⟨mid, hmid, htenant, hdep, hother⟩ := h.kept memoryId item hfind
    obtain ⟨last, hlast, htenant', hdep', hother'⟩ := h'.kept memoryId mid hmid
    refine ⟨last, hlast, htenant'.trans htenant, fun hd => hdep' (hdep hd), fun hne => ?_⟩
    obtain ⟨hcontent, hstate⟩ := hother hne
    obtain ⟨hcontent', hstate'⟩ := hother' (by rw [htenant]; exact hne)
    exact ⟨hcontent'.trans hcontent, hstate'.trans hstate⟩

theorem kept_of_put (hunique : db.Unique) (hold : ∀ old, db.find item.memoryId = some old →
    (old.verificationState = .deprecated → item.verificationState = .deprecated) ∧
    (old.tenant ≠ tenant → item.content = old.content ∧
      item.verificationState = old.verificationState)) :
    Kept tenant db (db.put item) where
  kept memoryId found hfind := by
    rw [find_put hunique]
    split
    · next hid =>
      rw [hid] at hfind
      obtain ⟨hdep, hother⟩ := hold found hfind
      rw [hfind]
      exact ⟨_, rfl, rfl, hdep, hother⟩
    · exact ⟨found, hfind, rfl, id, fun _ => ⟨rfl, rfl⟩⟩

theorem Write.kept (hwrite : Write tenant db db') (hunique : db.Unique) : Kept tenant db db' := by
  cases hwrite with
  | create hnew _ _ _ =>
    refine kept_of_put hunique fun old hold => ?_
    rw [hnew] at hold
    cases hold
  | rewrite hold hstate _ _ htenant =>
    refine kept_of_put hunique fun found hfound => ?_
    obtain rfl := Option.some.inj (hold.symm.trans hfound)
    refine ⟨fun hd => hstate.trans hd, fun hne => ⟨?_, hstate⟩⟩
    exact htenant.resolve_left hne
  | @move item _ _ hold _ _ hto _ _ _ htenant =>
    have hput : Kept tenant db (db.put item) := by
      refine kept_of_put hunique fun found hfound => ?_
      obtain rfl := Option.some.inj (hold.symm.trans hfound)
      refine ⟨fun hd => ?_, fun hne => absurd htenant hne⟩
      rw [hd] at hto
      cases hto
    exact ⟨hput.kept⟩
  | touch now touched =>
    refine ⟨fun memoryId item hfind => ?_⟩
    rw [find_touch, hfind]
    obtain ⟨-, htenant, hcontent, -, hstate, -⟩ := touch_fields item now touched
    exact ⟨_, rfl, htenant, fun hd => hstate.trans hd, fun _ => ⟨hcontent, hstate⟩⟩

/-- Any number of writes on behalf of `tenant`. -/
abbrev Writes (tenant : Str) : Db F → Db F → Prop := Relation.ReflTransGen (Write tenant)

theorem Writes.inv (h : Writes tenant db db') (hinv : Inv db) : Inv db' := by
  induction h with
  | refl => exact hinv
  | tail _ hwrite ih => exact ih.write hwrite

theorem Writes.kept (h : Writes tenant db db') (hinv : Inv db) : Kept tenant db db' := by
  induction h with
  | refl => exact .refl _
  | tail hwrites hwrite ih => exact ih.trans (hwrite.kept (Writes.inv hwrites hinv).unique)

end Memory
