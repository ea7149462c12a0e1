import Msb.Memory.Writes

/-!
# What a consolidation writes

The merges of a consolidation are planned over the memories that are listed, group by group, and
each of these memories is in at most one merge, as a survivor or as one merged away. So no step of
the plan is undone by an earlier one: a memory that is forgotten is still as it was listed, and so
is a survivor that is written.

* `consolidate_writes` — a consolidation writes on behalf of its tenant, where every forgetting can
  be recorded
-/

namespace Memory

open Py

variable {F : Type} (P : Platform F) (now : F) {db db' : Db F} {item : MemoryItem F}
  {items group : List (MemoryItem F)} {tenant by' : Str}

/-! ## The plan -/

/-- A memory as it is listed, and what merges have made of it. -/
structure Grown (a b : MemoryItem F) : Prop where
  memoryId : b.memoryId = a.memoryId
  verificationState : b.verificationState = a.verificationState
  archived : b.archived = a.archived

theorem Grown.refl (a : MemoryItem F) : Grown a a := ⟨rfl, rfl, rfl⟩

theorem Grown.absorb {a b : MemoryItem F} (h : Grown a b) (other : MemoryItem F) :
    Grown a (b.absorb P other now) :=
  ⟨h.memoryId, h.verificationState, h.archived⟩

theorem encodes_absorb {a other : MemoryItem F} (ha : Encodes a.texts)
    (hother : Encodes other.texts) : Encodes (a.absorb P other now).texts := by
  unfold MemoryItem.texts MemoryItem.absorb at *
  simp only [encodes_append, encodes_cons] at *
  obtain ⟨⟨⟨hid, hcontent, hagent, hsource, htask, htenant, hproject, htech, hnil⟩, htags⟩, hrel⟩ :=
    ha
  obtain ⟨⟨⟨hid', hcontent', -⟩, htags'⟩, -⟩ := hother
  refine ⟨⟨⟨hid, ?_, hagent, hsource, htask, htenant, hproject, htech, hnil⟩, fun t ht => ?_⟩,
    fun r hr => ?_⟩
  · rw [encode_append_isSome, encode_append_isSome]
    exact ⟨⟨hcontent, by decide⟩, hcontent'⟩
  · rcases List.mem_append.mp (List.mem_eraseDups.mp ht) with ht | ht
    · exact htags t ht
    · exact htags' t ht
  · rcases List.mem_append.mp (List.mem_eraseDups.mp hr) with hr | hr
    · exact hrel r hr
    · rw [List.mem_singleton.mp hr]
      exact hid'

/-- The inner loop: a survivor has grown, and the others are consumed or left. -/
theorem absorbAll_spec {others : List (MemoryItem F)} {origin survivor : MemoryItem F}
    (hgrown : Grown origin survivor) : Grown origin (absorbAll P now survivor others).survivor ∧
      ((absorbAll P now survivor others).consumed ++ (absorbAll P now survivor others).rest).Perm
      others := by
  induction others generalizing survivor with
  | nil => exact ⟨hgrown, .refl _⟩
  | cons other others ih =>
    unfold absorbAll
    split
    · obtain ⟨hg, hperm⟩ := ih (hgrown.absorb P now other)
      exact ⟨hg, hperm.cons other⟩
    · obtain ⟨hg, hperm⟩ := ih hgrown
      exact ⟨hg, List.perm_middle.trans (hperm.cons other)⟩

theorem absorbAll_encodes {others : List (MemoryItem F)} {survivor : MemoryItem F}
    (henc : Encodes survivor.texts)
    (hothers : ∀ b ∈ others, Encodes b.texts) :
    Encodes (absorbAll P now survivor others).survivor.texts := by
  induction others generalizing survivor with
  | nil => exact henc
  | cons other others ih =>
    have htail : ∀ b ∈ others, Encodes b.texts := fun b hb => hothers b (List.mem_cons_of_mem _ hb)
    unfold absorbAll
    split
    · exact ih (encodes_absorb P now henc (hothers other List.mem_cons_self)) htail
    · exact ih henc htail

/-- The memories of a merge, the survivor as it has come out. -/
def Merge.members (m : Merge F) : List (MemoryItem F) := m.survivor :: m.consumed

/-- **The plan of a group**: every memory of it is in one merge. -/
structure Planned (group : List (MemoryItem F)) (merges : List (Merge F)) : Prop where
  survivor : ∀ m ∈ merges, ∃ a ∈ group, Grown a m.survivor
  consumed : ∀ m ∈ merges, ∀ b ∈ m.consumed, b ∈ group
  ids : ((merges.flatMap Merge.members).map MemoryItem.memoryId).Perm
    (group.map MemoryItem.memoryId)

theorem mergeAll_planned : Planned items (mergeAll P now items) := by
  induction items using (mergeAll.induct P now) with
  | case1 =>
    unfold mergeAll
    exact ⟨fun m hm => (by cases hm), fun m hm => (by cases hm), .refl _⟩
  | case2 item items r ih =>
    obtain ⟨hgrown, hperm⟩ := absorbAll_spec P now (Grown.refl item)
    have hmem : ∀ b, b ∈ r.consumed ∨ b ∈ r.rest → b ∈ items :=
      fun b hb => hperm.subset (List.mem_append.mpr hb)
    rw [mergeAll]
    refine ⟨fun m hm => ?_, fun m hm b hb => ?_, ?_⟩
    · rcases List.mem_cons.mp hm with rfl | hm
      · exact ⟨item, List.mem_cons_self, hgrown⟩
      · obtain ⟨a, ha, hg⟩ := ih.survivor m hm
        exact ⟨a, List.mem_cons_of_mem _ (hmem a (Or.inr ha)), hg⟩
    · rcases List.mem_cons.mp hm with rfl | hm
      · exact List.mem_cons_of_mem _ (hmem b (Or.inl hb))
      · exact List.mem_cons_of_mem _ (hmem b (Or.inr (ih.consumed m hm b hb)))
    · rw [List.flatMap_cons]
      show (((r.survivor :: r.consumed) ++ _).map MemoryItem.memoryId).Perm _
      rw [List.cons_append, List.map_cons, List.map_cons, hgrown.memoryId, List.map_append]
      refine .cons _ ?_
      have htailIds := (List.Perm.refl (r.consumed.map MemoryItem.memoryId)).append ih.ids
      have hall := hperm.map MemoryItem.memoryId
      rw [List.map_append] at hall
      exact htailIds.trans hall

theorem mergeAll_encodes (hitems : ∀ a ∈ items, Encodes a.texts) :
    ∀ m ∈ mergeAll P now items, Encodes m.survivor.texts := by
  induction items using (mergeAll.induct P now) with
  | case1 =>
    unfold mergeAll
    intro m hm
    cases hm
  | case2 item items r ih =>
    have htail : ∀ b ∈ items, Encodes b.texts := fun b hb => hitems b (List.mem_cons_of_mem _ hb)
    obtain ⟨-, hperm⟩ := absorbAll_spec P now (Grown.refl item)
    rw [mergeAll]
    intro m hm
    rcases List.mem_cons.mp hm with rfl | hm
    · exact absorbAll_encodes P now (hitems item List.mem_cons_self) htail
    · exact ih (fun b hb => htail b (hperm.subset (List.mem_append_right _ hb))) m hm

theorem mergesOf_planned : mergesOf P now group = [] ∨ Planned group (mergesOf P now group) := by
  unfold mergesOf
  split
  · exact Or.inl rfl
  · refine Or.inr ?_
    have hperm := List.mergeSort_perm group fun a b => !P.float.lt a.importance b.importance
    have hplan :
        Planned _ (mergeAll P now
          (group.mergeSort fun a b => !P.float.lt a.importance b.importance)) :=
      mergeAll_planned P now
    refine ⟨fun m hm => ?_, fun m hm b hb => ?_, hplan.ids.trans (hperm.map _)⟩
    · obtain ⟨a, ha, hg⟩ := hplan.survivor m hm
      exact ⟨a, hperm.subset ha, hg⟩
    · exact hperm.subset (hplan.consumed m hm b hb)

theorem mergesOf_encodes (hgroup : ∀ a ∈ group, Encodes a.texts) :
    ∀ m ∈ mergesOf P now group, Encodes m.survivor.texts := by
  unfold mergesOf
  split
  · intro m hm
    cases hm
  · exact mergeAll_encodes P now fun a ha => hgroup a (List.mem_mergeSort.mp ha)

theorem mem_groupsOf (hgroup : group ∈ groupsOf items) : group.Sublist items := by
  obtain ⟨key, -, rfl⟩ := List.mem_map.mp hgroup
  exact List.filter_sublist

/-- No memory is in two groups. -/
theorem nodup_groupsOf (h : (items.map MemoryItem.memoryId).Nodup) :
    ((groupsOf items).flatten.map MemoryItem.memoryId).Nodup := by
  rw [List.map_flatten, List.nodup_flatten]
  constructor
  · intro ids hids
    obtain ⟨group, hgroup, rfl⟩ := List.mem_map.mp hids
    exact h.sublist ((mem_groupsOf hgroup).map _)
  · unfold groupsOf
    rw [List.map_map, List.pairwise_map]
    refine (Keyed.nodup_eraseDups _).imp fun {k l} hkl => ?_
    intro memoryId hk hl
    obtain ⟨a, ha, rfl⟩ := List.mem_map.mp hk
    obtain ⟨b, hb, hid⟩ := List.mem_map.mp hl
    obtain ⟨ha, hka⟩ := List.mem_filter.mp ha
    obtain ⟨hb, hlb⟩ := List.mem_filter.mp hb
    obtain rfl := List.inj_on_of_nodup_map h hb ha hid
    exact hkl ((of_decide_eq_true hka).symm.trans (of_decide_eq_true hlb))

/-! ## The writes -/

/-- A memory in hand is as its row is: of the tenant, not archived, in the same state. -/
def Current (tenant : Str) (db : Db F) (item : MemoryItem F) : Prop :=
  ∃ row, db.find item.memoryId = some row ∧ row.tenant = tenant ∧
    row.verificationState = item.verificationState ∧
    row.archived = false ∧ item.archived = false ∧ Encodes item.texts

/-- A write to other memories. -/
theorem Current.put (h : Current tenant db item) (hunique : db.Unique) {other : MemoryItem F}
    (hne : item.memoryId ≠ other.memoryId) (history : List (VerificationRow F)) :
    Current tenant ⟨(db.put other).items, history⟩ item := by
  obtain ⟨row, hrow, hfields⟩ := h
  refine ⟨row, ?_, hfields⟩
  show (db.put other).find item.memoryId = some row
  rw [find_put hunique, if_neg hne]
  exact hrow

/-- **The two writes of a transition**, where the texts of both can be encoded. -/
theorem transition_ok {t : Transition} (hitem : Encodes item.texts) (ht : Encodes t.texts) :
    ∃ record, encode (t.record []) = some record ∧ db.transition P item t [] now =
      (.ok item, ⟨(db.put item).items, db.history ++ [t.row P [] now record]⟩) := by
  obtain ⟨record, hrecord⟩ := Option.isSome_iff_exists.mp (Transition.record_encodes ht)
  refine ⟨record, hrecord, ?_⟩
  unfold Db.transition
  rw [upsert_eq_ok.mpr ⟨hitem, rfl⟩]
  dsimp only
  rw [recordVerification_eq_ok.mpr ⟨record, hrecord, rfl⟩]
  rfl

theorem mem_transitions_deprecated {s : VerificationState} (h : s ≠ .deprecated) :
    .deprecated ∈ transitions s := by
  cases s with
  | deprecated => exact absurd rfl h
  | _ => decide

/-- A forgetting that can be recorded. -/
theorem forget_writes (hinv : Inv db) {memoryId reason : Str} {found : MemoryItem F}
    (hid : (encode memoryId).isSome = true)
    (hfound : db.find memoryId = some found) (htenant : found.tenant = tenant)
    (harchived : found.archived = false)
    (htexts : Encodes [by', reason]) :
    ∃ record, forgetMemory P db memoryId by' reason now = (.ok (found.forgotten now),
        ⟨(db.put (found.forgotten now)).items,
          db.history ++ [(forgetTransition found by' reason).row P [] now record]⟩) ∧
      Write tenant db (forgetMemory P db memoryId by' reason now).2 := by
  have henc := hinv.encodes memoryId found hfound
  have hfoundId := find_memoryId hfound
  obtain ⟨hby, hreason, -⟩ := by
    rw [encodes_cons, encodes_cons] at htexts
    exact htexts
  have hrecord : Encodes (forgetTransition found by' reason).texts := by
    unfold forgetTransition Transition.texts
    simp only [encodes_cons]
    rw [hfoundId]
    exact ⟨hid, hby, hreason, rfl, rfl, rfl, fun s hs => (by cases hs)⟩
  have hforgotten : Encodes (found.forgotten now).texts := henc
  obtain ⟨record, -, htransition⟩ : ∃ record, _ ∧
      db.transition P (found.forgotten now) _ [] now = _ :=
    transition_ok P now hforgotten hrecord
  have hforget : forgetMemory P db memoryId by' reason now =
      db.transition P (found.forgotten now) (forgetTransition found by' reason) [] now := by
    unfold forgetMemory
    rw [get_eq_ok.mpr ⟨hid, hfound⟩]
    show (if found.archived = true then _ else _) = _
    rw [harchived, if_neg Bool.false_ne_true]
  rw [hforget, htransition]
  refine ⟨record, rfl, ?_⟩
  have hstate : found.verificationState ≠ .deprecated := by
    rw [Ne, ← (hinv.tracked _ _ hfound).archived_iff, harchived]
    exact Bool.false_ne_true
  have hold : db.find found.memoryId = some found := by
    rw [hfoundId]
    exact hfound
  exact Write.move hold rfl rfl (mem_transitions_deprecated hstate) rfl (iff_of_true rfl rfl)
    henc htenant

/-- The forgettings of a group. -/
theorem each_forget (hby : Encodes [by']) : ∀ {pairs : List (Str × MemoryItem F)}
    {db : Db F}, Inv db →
    (∀ p ∈ pairs, Current tenant db p.2 ∧ (encode p.1).isSome = true) →
    (pairs.map fun p => p.2.memoryId).Nodup →
    ∃ db', each (forgetConsumed P by' now) db pairs = (.ok (), db') ∧ Writes tenant db db' ∧
      ∀ item, item.memoryId ∉ pairs.map (fun p => p.2.memoryId) → Current tenant db item →
      Current tenant db' item
  | [], db, _, _, _ => ⟨db, rfl, .refl, fun _ _ h => h⟩
  | (survivor, other) :: pairs, db, hinv, hpairs, hnodup => by
    obtain ⟨⟨row, hrow, htenant, -, harchived, -, henc⟩, hsurvivor⟩ := hpairs _ List.mem_cons_self
    have hid : (encode other.memoryId).isSome = true :=
      henc _ (List.mem_append_left _ (List.mem_append_left _ List.mem_cons_self))
    have hreason : Encodes [by', lit "consolidated into " ++ survivor] := by
      rw [encodes_cons, encodes_cons, encode_append_isSome]
      exact ⟨hby _ List.mem_cons_self, ⟨by decide, hsurvivor⟩, fun s hs => (by cases hs)⟩
    obtain ⟨record, hforget, hwrite⟩ := forget_writes P now hinv hid hrow htenant harchived hreason
    rw [hforget] at hwrite
    have hfirst : forgetConsumed P by' now db (survivor, other) =
      (.ok (), ⟨(db.put (row.forgotten now)).items,
        db.history ++ [(forgetTransition row by' (lit "consolidated into " ++ survivor)).row P
          [] now record]⟩) := by
      unfold forgetConsumed
      rw [hforget]
      rfl
    rw [List.map_cons, List.nodup_cons] at hnodup
    have hrowId := find_memoryId hrow
    have hkeep : ∀ item, item.memoryId ≠ other.memoryId → Current tenant db item →
      Current tenant ⟨(db.put (row.forgotten now)).items,
        db.history ++ [(forgetTransition row by' (lit "consolidated into " ++ survivor)).row P
          [] now record]⟩ item :=
      fun item hne hcurrent => hcurrent.put hinv.unique (hrowId ▸ hne) _
    obtain ⟨db', hrest, hwrites, hcurrent⟩ := each_forget hby (hinv.write hwrite) (fun p hp =>
      ⟨hkeep p.2 (fun heq => hnodup.1 (heq ▸ List.mem_map_of_mem hp))
        (hpairs p (List.mem_cons_of_mem _ hp)).1,
        (hpairs p (List.mem_cons_of_mem _ hp)).2⟩) hnodup.2
    refine ⟨db', ?_, .head hwrite hwrites, fun item hnot h => ?_⟩
    · rw [each, hfirst]
      exact hrest
    · rw [List.map_cons, List.mem_cons, not_or] at hnot
      exact hcurrent item hnot.2 (hkeep item hnot.1 h)

/-- Memories that are written again as they are in the table, but for what verification does not
look at. -/
theorem rewrite_current (h : Current tenant db item) :
    upsertSurvivor db item = (.ok (), db.put item) ∧ Write tenant db (db.put item) := by
  obtain ⟨row, hrow, htenant, hstate, hrowArchived, harchived, henc⟩ := h
  refine ⟨?_, Write.rewrite hrow hstate.symm (harchived.trans hrowArchived.symm) henc
    (Or.inl htenant)⟩
  unfold upsertSurvivor
  rw [upsert_eq_ok.mpr ⟨henc, rfl⟩]

theorem each_upsert : ∀ {items : List (MemoryItem F)} {db : Db F}, Inv db →
    (∀ item ∈ items, Current tenant db item) →
    (items.map MemoryItem.memoryId).Nodup → ∃ db', each upsertSurvivor db items = (.ok (), db') ∧
    Writes tenant db db' ∧
      ∀ item, item.memoryId ∉ items.map MemoryItem.memoryId → Current tenant db item →
      Current tenant db' item
  | [], db, _, _, _ => ⟨db, rfl, .refl, fun _ _ h => h⟩
  | first :: items, db, hinv, hitems, hnodup => by
    obtain ⟨hupsert, hwrite⟩ := rewrite_current (hitems first List.mem_cons_self)
    rw [List.map_cons, List.nodup_cons] at hnodup
    obtain ⟨db', hrest, hwrites, hcurrent⟩ := each_upsert (hinv.write hwrite) (fun item hitem =>
      (hitems item (List.mem_cons_of_mem _ hitem)).put hinv.unique
        (fun heq => hnodup.1 (heq ▸ List.mem_map_of_mem hitem)) _) hnodup.2
    refine ⟨db', ?_, .head hwrite hwrites, fun item hnot h => ?_⟩
    · rw [each, hupsert]
      exact hrest
    · rw [List.map_cons, List.mem_cons, not_or] at hnot
      exact hcurrent item hnot.2 (h.put hinv.unique hnot.1 _)

/-! ## The loops -/

theorem members_perm (merges : List (Merge F)) :
    (merges.flatMap Merge.members).Perm
    (merges.map Merge.survivor ++ merges.flatMap Merge.consumed) := by
  induction merges with
  | nil => exact .refl _
  | cons m merges ih =>
    rw [List.flatMap_cons, List.flatMap_cons, List.map_cons]
    refine .cons m.survivor ?_
    exact (ih.append_left m.consumed).trans (List.perm_append_comm_assoc _ _ _)

theorem pairs_ids (merges : List (Merge F)) : (merges.flatMap Merge.pairs).map
    (fun p => p.2.memoryId) = (merges.flatMap Merge.consumed).map MemoryItem.memoryId := by
  rw [List.map_flatMap, List.map_flatMap]
  refine congrArg (fun f => List.flatMap f merges) (funext fun m => ?_)
  rw [Merge.pairs, List.map_map]
  rfl

/-- The merges of a group: what is merged away is forgotten, and the survivors are written. -/
theorem consolidateGroup_writes (hinv : Inv db) (hgroup : ∀ item ∈ group, Current tenant db item)
    (hnodup : (group.map MemoryItem.memoryId).Nodup)
    (hby : (mergesOf P now group).flatMap Merge.consumed = [] ∨ Encodes [by']) :
    ∃ db', consolidateGroup P by' now db group = (.ok (), db') ∧ Writes tenant db db' ∧
      ∀ item, item.memoryId ∉ group.map MemoryItem.memoryId → Current tenant db item →
      Current tenant db' item := by
  have hencodes : ∀ a ∈ group, Encodes a.texts := fun a ha => by
    obtain ⟨_, -, -, -, -, -, henc⟩ := hgroup a ha
    exact henc
  have hsurvivorEncodes := mergesOf_encodes P now hencodes
  unfold consolidateGroup
  rcases mergesOf_planned P now with hnone | hplan
  · rw [hnone]
    exact ⟨db, rfl, .refl, fun _ _ h => h⟩
  · generalize mergesOf P now group = merges at hplan hby hsurvivorEncodes ⊢
    have hids :=
      ((members_perm merges).map MemoryItem.memoryId).nodup_iff.mp (hplan.ids.nodup_iff.mpr hnodup)
    rw [List.map_append, List.nodup_append] at hids
    obtain ⟨hsurvivors, hconsumed, hdisjoint⟩ := hids
    have hmember : ∀ memoryId, memoryId ∈ (merges.flatMap Merge.members).map MemoryItem.memoryId →
        memoryId ∈ group.map MemoryItem.memoryId := fun memoryId h => hplan.ids.subset h
    have hsub : ∀ memoryId, memoryId ∈ (merges.flatMap Merge.consumed).map MemoryItem.memoryId →
        memoryId ∈ group.map MemoryItem.memoryId := fun memoryId h =>
      hmember memoryId
        (((members_perm merges).map _).symm.subset
          (by rw [List.map_append]; exact List.mem_append_right _ h))
    have hsubSurvivor : ∀ memoryId, memoryId ∈ (merges.map Merge.survivor).map MemoryItem.memoryId →
        memoryId ∈ group.map MemoryItem.memoryId := fun memoryId h =>
      hmember memoryId
        (((members_perm merges).map _).symm.subset
          (by rw [List.map_append]; exact List.mem_append_left _ h))
    -- what is consumed is forgotten first
    have hforgets : ∃ mid, each (forgetConsumed P by' now) db (merges.flatMap Merge.pairs) =
      (.ok (), mid) ∧
        Writes tenant db mid ∧ ∀ item, item.memoryId ∉ (merges.flatMap Merge.consumed).map
        MemoryItem.memoryId → Current tenant db item → Current tenant mid item := by
      rcases hby with hnone | hby
      · have hpairs : merges.flatMap Merge.pairs = [] := by
          rw [List.flatMap_eq_nil_iff] at hnone ⊢
          intro m hm
          rw [Merge.pairs, hnone m hm, List.map_nil]
        rw [hpairs]
        exact ⟨db, rfl, .refl, fun _ _ h => h⟩
      · rw [← pairs_ids]
        refine each_forget P now hby hinv (fun p hp => ?_) (by rw [pairs_ids]; exact hconsumed)
        obtain ⟨m, hm, hp⟩ := List.mem_flatMap.mp hp
        obtain ⟨other, hother, rfl⟩ := List.mem_map.mp hp
        exact ⟨hgroup other (hplan.consumed m hm other hother),
          hsurvivorEncodes m hm
          _ (List.mem_append_left _ (List.mem_append_left _ List.mem_cons_self))⟩
    obtain ⟨mid, hmid, hwrites, hcurrent⟩ := hforgets
    -- the survivors are not among it
    have hsurvivorCurrent : ∀ item ∈ merges.map Merge.survivor, Current tenant mid item := by
      intro item hitem
      obtain ⟨m, hm, rfl⟩ := List.mem_map.mp hitem
      obtain ⟨a, ha, hgrown⟩ := hplan.survivor m hm
      obtain ⟨row, hrow, htenant, hstate, hrowArchived, harchived, -⟩ := hgroup a ha
      refine hcurrent _ (fun hmem => ?_) ⟨row, by rw [hgrown.memoryId]; exact hrow, htenant,
        hstate.trans hgrown.verificationState.symm, hrowArchived, hgrown.archived.trans harchived,
        hsurvivorEncodes m hm⟩
      exact hdisjoint _ (List.mem_map_of_mem hitem) _ hmem rfl
    obtain ⟨last, hlast, hwrites', hcurrent'⟩ :=
      each_upsert (hwrites.inv hinv) hsurvivorCurrent hsurvivors
    refine ⟨last, ?_, hwrites.trans hwrites', fun item hnot h => ?_⟩
    · show (each (forgetConsumed P by' now) db _).andThen _ = _
      rw [hmid]
      exact hlast
    · exact hcurrent' item (mt (hsubSurvivor _) hnot) (hcurrent item (mt (hsub _) hnot) h)

theorem each_group : ∀ {groups : List (List (MemoryItem F))} {db : Db F}, Inv db →
    (∀ item ∈ groups.flatten, Current tenant db item) →
    (groups.flatten.map MemoryItem.memoryId).Nodup →
    (∀ group ∈ groups, (mergesOf P now group).flatMap Merge.consumed = [] ∨ Encodes [by']) →
    ∃ db', each (consolidateGroup P by' now) db groups = (.ok (), db') ∧ Writes tenant db db'
  | [], db, _, _, _, _ => ⟨db, rfl, .refl⟩
  | group :: groups, db, hinv, hcurrent, hnodup, hby => by
    rw [List.flatten_cons, List.map_append, List.nodup_append] at hnodup
    obtain ⟨hgroup, hgroups, hdisjoint⟩ := hnodup
    obtain ⟨mid, hmid, hwrites, hkeep⟩ := consolidateGroup_writes P now hinv
      (fun item hitem => hcurrent item (List.mem_append_left _ hitem)) hgroup
      (hby group List.mem_cons_self)
    obtain ⟨last, hlast, hwrites'⟩ := each_group (hwrites.inv hinv)
      (fun item hitem => hkeep item (fun hmem => hdisjoint _ hmem _ (List.mem_map_of_mem hitem) rfl)
        (hcurrent item (List.mem_append_right _ hitem)))
      hgroups fun g hg => hby g (List.mem_cons_of_mem _ hg)
    refine ⟨last, ?_, hwrites.trans hwrites'⟩
    rw [each, hmid]
    exact hlast

/-- The decay of a memory: nothing is written, or the memory with less importance. -/
theorem decay_cases (h : Current tenant db item) : (∃ r, decay P now db item = (r, db)) ∨
    ∃ item', decay P now db item = (.ok (), db.put item') ∧ Write tenant db (db.put item') ∧
      item'.memoryId = item.memoryId := by
  unfold decay
  cases decayedImportance P now item with
  | error e => exact Or.inl ⟨_, rfl⟩
  | ok importance =>
    show (∃ r, (if P.float.lt importance item.importance = true then _ else _) = _) ∨ _
    by_cases hlt : P.float.lt importance item.importance = true
    · have hdecayed : Current tenant db { item with importance := importance, updatedAt := now } :=
        h
      obtain ⟨hupsert, hwrite⟩ := rewrite_current hdecayed
      refine Or.inr ⟨_, ?_, hwrite, rfl⟩
      show (if P.float.lt importance item.importance = true then _ else _) = _
      rw [if_pos hlt]
      exact hupsert
    · rw [if_neg hlt]
      exact Or.inl ⟨_, rfl⟩

/-- The decay, up to where it raises. -/
theorem each_decay : ∀ {items : List (MemoryItem F)} {db : Db F}, Inv db →
    (∀ item ∈ items, Current tenant db item) →
    (items.map MemoryItem.memoryId).Nodup → Writes tenant db (each (decay P now) db items).2
  | [], _, _, _, _ => .refl
  | item :: items, db, hinv, hitems, hnodup => by
    rw [List.map_cons, List.nodup_cons] at hnodup
    have htail : ∀ i ∈ items, Current tenant db i :=
      fun i hi => hitems i (List.mem_cons_of_mem _ hi)
    rw [each]
    rcases decay_cases P now (hitems item List.mem_cons_self) with ⟨r, hr⟩
      | ⟨item', hput, hwrite, hid⟩
    · rw [hr]
      cases r with
      | error e => exact .refl
      | ok u => exact each_decay hinv htail hnodup.2
    · rw [hput]
      refine .head hwrite (each_decay (hinv.write hwrite) (fun i hi => ?_) hnodup.2)
      refine (htail i hi).put hinv.unique (fun heq => hnodup.1 ?_) _
      rw [← hid, ← heq]
      exact List.mem_map_of_mem hi

theorem listActive_current (hinv : Inv db) {limit : Nat} (h : item ∈ db.listActive P tenant limit) :
    Current tenant db item := by
  obtain ⟨hmem, htenant, harchived⟩ := mem_listActive h
  have hfind : db.find item.memoryId = some item := (Keyed.find_eq_some hinv.unique).mpr ⟨hmem, rfl⟩
  exact ⟨item, hfind, htenant, rfl, harchived, harchived, hinv.encodes _ _ hfind⟩

theorem decayPass_writes (hinv : Inv db) {groups : List (List (MemoryItem F))} :
    Writes tenant db (decayPass P tenant now groups db).2 := by
  have hlisted : ∀ item ∈ db.listActive P tenant 1000, Current tenant db item :=
    fun item hitem => listActive_current P hinv hitem
  have hdecay := each_decay P now hinv hlisted (nodup_listActive hinv.unique 1000)
  show Writes tenant db ((each (decay P now) db (db.listActive P tenant 1000)).andThen _).2
  generalize each (decay P now) db (db.listActive P tenant 1000) = out at hdecay ⊢
  obtain ⟨result, last⟩ := out
  cases result with
  | error e => exact hdecay
  | ok u => exact hdecay

/-- **A consolidation writes on behalf of its tenant**, where what it sets out to record can be
recorded. -/
theorem consolidate_writes (hinv : Inv db)
    (hpending : ∀ t ∈ consolidatePending P db tenant by' now, Encodes t.texts) :
    Writes tenant db (consolidate P db tenant by' now).2 := by
  unfold consolidate
  cases hbind : bindTexts [tenant] with
  | error e => exact .refl
  | ok u =>
    have hby : ∀ group ∈ groupsOf (db.listActive P tenant 1000),
        (mergesOf P now group).flatMap Merge.consumed = [] ∨ Encodes [by'] := by
      intro group hgroup
      refine or_iff_not_imp_left.mpr fun hne => ?_
      obtain ⟨other, hother⟩ := List.exists_mem_of_ne_nil _ hne
      obtain ⟨m, hm, hother⟩ := List.mem_flatMap.mp hother
      have hpair : (m.survivor.memoryId, other) ∈
          ((groupsOf (db.listActive P tenant 1000)).flatMap (mergesOf P now)).flatMap Merge.pairs :=
        List.mem_flatMap.mpr ⟨m, List.mem_flatMap.mpr ⟨group, hgroup, hm⟩,
          List.mem_map_of_mem hother⟩
      have htexts := hpending _ (List.mem_map_of_mem hpair)
      intro s hs
      rw [List.mem_singleton.mp hs]
      exact htexts _ (List.mem_cons_of_mem _ List.mem_cons_self)
    have hlisted : ∀ item ∈ (groupsOf (db.listActive P tenant 1000)).flatten,
        Current tenant db item := by
      intro item hitem
      obtain ⟨group, hgroup, hitem⟩ := List.mem_flatten.mp hitem
      exact listActive_current P hinv ((mem_groupsOf hgroup).subset hitem)
    obtain ⟨mid, hmid, hwrites⟩ :=
      each_group P now hinv hlisted (nodup_groupsOf (nodup_listActive hinv.unique 1000)) hby
    show Writes tenant db ((each (consolidateGroup P by' now) db _).andThen _).2
    rw [hmid]
    exact hwrites.trans (decayPass_writes P now (hwrites.inv hinv))

end Memory
