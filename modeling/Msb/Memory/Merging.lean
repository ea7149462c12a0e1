import Msb.Memory.ItemWrites

/-!
# The merges of a consolidation

A survivor takes in the content of others, and these are deprecated. What is merged away is
forgotten before its survivor is saved, and each memory is in one merge at most; so what is stored
after some of the writes can be read off the merges.

* `mergesOf_takes` — what a survivor has become
* `active_applyAll`, `holds_applyAll` — the active memories after some of the writes, and what they
  hold
* `merging_merges` — the merges of a consolidation are merges of active memories
-/

namespace Memory

open Py

variable {F : Type}

/-! ## Survivors -/

section

variable (P : Platform F) (now : F)

/-- A survivor, for what it was and what it has taken in. -/
structure Takes (origin : MemoryItem F) (consumed : List (MemoryItem F)) (survivor : MemoryItem F) :
    Prop where
  memoryId : survivor.memoryId = origin.memoryId
  archived : survivor.archived = origin.archived
  verificationState : survivor.verificationState = origin.verificationState
  content : survivor.content = origin.content ++ consumed.flatMap fun other =>
    lit "\n\n" ++ other.content
  relationships : ∀ memoryId, memoryId ∈ survivor.relationships ↔
    memoryId ∈ origin.relationships ∨ memoryId ∈ consumed.map MemoryItem.memoryId

variable {P now} {origin survivor : MemoryItem F} {consumed items group : List (MemoryItem F)}

theorem Takes.refl (origin : MemoryItem F) : Takes origin [] origin where
  memoryId := rfl
  archived := rfl
  verificationState := rfl
  content := (List.append_nil _).symm
  relationships memoryId := by simp

theorem Takes.absorb (h : Takes origin consumed survivor) (other : MemoryItem F) :
    Takes origin (consumed ++ [other]) (survivor.absorb P other now) where
  memoryId := h.memoryId
  archived := h.archived
  verificationState := h.verificationState
  content := by
    show survivor.content ++ lit "\n\n" ++ other.content = _
    rw [h.content]
    simp
  relationships memoryId := by
    show memoryId ∈ (survivor.relationships ++ [other.memoryId]).eraseDups ↔ _
    rw [List.mem_eraseDups, List.mem_append, h.relationships, List.map_append,
      List.mem_append, or_assoc]
    rfl

theorem absorbAll_takes (others : List (MemoryItem F)) (h : Takes origin consumed survivor) :
    Takes origin (consumed ++ (absorbAll P now survivor others).consumed)
    (absorbAll P now survivor others).survivor := by
  induction others generalizing survivor consumed with
  | nil =>
    rw [absorbAll, List.append_nil]
    exact h
  | cons other others ih =>
    unfold absorbAll
    split
    · rw [List.append_cons]
      exact ih (h.absorb other)
    · exact ih h

theorem mergeAll_takes :
    ∀ m ∈ mergeAll P now items, ∃ origin ∈ items, Takes origin m.consumed m.survivor := by
  induction items using (mergeAll.induct P now) with
  | case1 =>
    unfold mergeAll
    intro m hm
    cases hm
  | case2 item items r ih =>
    obtain ⟨-, hperm⟩ := absorbAll_spec P now (Grown.refl item)
    rw [mergeAll]
    intro m hm
    rcases List.mem_cons.mp hm with rfl | hm
    · exact ⟨item, List.mem_cons_self, absorbAll_takes items (.refl item)⟩
    · obtain ⟨origin, horigin, htakes⟩ := ih m hm
      exact ⟨origin, List.mem_cons_of_mem _ (hperm.subset (List.mem_append_right _ horigin)),
        htakes⟩

theorem mergesOf_takes :
    ∀ m ∈ mergesOf P now group, ∃ origin ∈ group, Takes origin m.consumed m.survivor := by
  unfold mergesOf
  split
  · intro m hm
    cases hm
  · intro m hm
    obtain ⟨origin, horigin, htakes⟩ := mergeAll_takes m hm
    exact ⟨origin, List.mem_mergeSort.mp horigin, htakes⟩

theorem Takes.origin_infix (h : Takes origin consumed survivor) :
    origin.content <:+: survivor.content := by
  rw [h.content]
  exact (List.prefix_append _ _).isInfix

theorem Takes.consumed_infix (h : Takes origin consumed survivor) {other : MemoryItem F}
    (hother : other ∈ consumed) : other.content <:+: survivor.content := by
  obtain ⟨before, behind, rfl⟩ := List.append_of_mem hother
  refine ⟨origin.content ++ before.flatMap (fun b => lit "\n\n" ++ b.content) ++ lit "\n\n",
    behind.flatMap fun b => lit "\n\n" ++ b.content, ?_⟩
  rw [h.content]
  simp

end

/-! ## Lines -/

/-- The lines of a text. -/
def lines (s : Str) : List Str := s.splitOn 10

theorem infix_of_mem_lines {s line : Str} (h : line ∈ lines s) : line <:+: s := by
  obtain ⟨i, hi⟩ := List.getElem?_of_mem h
  have hmem : line ∈ (lines s).intersperse [10] := by
    rw [← List.getElem?_intersperse_two_mul] at hi
    exact List.mem_of_getElem? hi
  have hjoin : [10].intercalate (lines s) = s := List.intercalate_splitOn 10
  rw [← hjoin]
  exact List.infix_of_mem_flatten hmem

theorem lines_newline (s : Str) : lines (10 :: s) = [] :: lines s :=
  List.splitOn_append_cons_self [] s

theorem mem_lines_content {origin survivor : MemoryItem F} {consumed : List (MemoryItem F)}
    (h : Takes origin consumed survivor) (line : Str) : line ∈ lines survivor.content ↔
      line ∈ lines origin.content ∨ ∃ b ∈ consumed, line = [] ∨ line ∈ lines b.content := by
  rw [h.content]
  generalize origin.content = text
  clear h
  induction consumed generalizing text with
  | nil => simp
  | cons b consumed ih =>
    have hsplit : lines (text ++ (b :: consumed).flatMap fun other => lit "\n\n" ++ other.content) =
        lines text ++ [] :: lines (b.content ++ consumed.flatMap fun other =>
          lit "\n\n" ++ other.content) := by
      show (text ++ 10 :: 10 :: (b.content ++ _)).splitOn 10 = _
      rw [List.splitOn_append_cons_self]
      exact congrArg (lines text ++ ·) (lines_newline _)
    rw [hsplit, List.mem_append, List.mem_cons, ih]
    simp [or_assoc]

/-! ## The writes of the merges -/

/-- An active memory of the tenant. -/
def Active (tenant : Str) (items : List (MemoryItem F)) (a : MemoryItem F) : Prop :=
  a ∈ items ∧ a.tenant = tenant ∧ a.archived = false

/-- The text is part of what an active memory of the tenant holds. -/
def Holds (tenant : Str) (items : List (MemoryItem F)) (text : Str) : Prop :=
  ∃ a, Active tenant items a ∧ text <:+: a.content

/-- The memory is merged away. -/
def MergedAway (merges : List (Merge F)) (memoryId : Str) : Prop :=
  ∃ m ∈ merges, ∃ b ∈ m.consumed, b.memoryId = memoryId

/-- Merges of active memories, each of them in one merge at most. -/
structure Merging (tenant : Str) (items : List (MemoryItem F)) (merges : List (Merge F)) :
    Prop where
  takes : ∀ m ∈ merges, ∃ origin, Active tenant items origin ∧ Takes origin m.consumed m.survivor
  consumed : ∀ m ∈ merges, ∀ b ∈ m.consumed, Active tenant items b
  nodup : ((merges.flatMap Merge.members).map MemoryItem.memoryId).Nodup

/-- Some of the writes of the merges. -/
structure WritesOf (merges : List (Merge F)) (ws : List (ItemWrite F)) : Prop where
  nodup : (ws.map ItemWrite.memoryId).Nodup
  write : ∀ w ∈ ws, (∃ memoryId, MergedAway merges memoryId ∧ w = .forget memoryId) ∨ ∃ m ∈ merges,
    w = .save m.survivor

theorem WritesOf.sublist {merges : List (Merge F)} {ws vs : List (ItemWrite F)}
    (h : WritesOf merges ws) (hsub : vs.Sublist ws) :
    WritesOf merges vs := ⟨h.nodup.sublist (hsub.map _), fun w hw => h.write w (hsub.subset hw)⟩

section

open ItemWrite

variable {tenant text : Str} {items : List (MemoryItem F)} {merges : List (Merge F)}
  {ws : List (ItemWrite F)} {now : F} {a b c : MemoryItem F}

theorem row_of_mem (h : UniqueItems items) (ha : a ∈ items) : rowOf items a.memoryId = some a :=
  (Keyed.find_eq_some h).mpr ⟨ha, rfl⟩

theorem mem_of_row {memoryId : Str} (h : rowOf items memoryId = some a) : a ∈ items :=
  (Keyed.find_key h).1

/-- The table after some of the writes. -/
theorem mem_applyAll (hunique : UniqueItems items) (hmerging : Merging tenant items merges)
    (hws : WritesOf merges ws) : c ∈ applyAll now items ws ↔
      (∃ m ∈ merges, .save m.survivor ∈ ws ∧ ∃ origin, Active tenant items origin ∧
        Takes origin m.consumed m.survivor ∧ c = m.survivor.over origin) ∨
      (∃ b, Active tenant items b ∧ .forget b.memoryId ∈ ws ∧ c = b.forgotten now) ∨
      (c ∈ items ∧ c.memoryId ∉ ws.map ItemWrite.memoryId) := by
  have hafter : UniqueItems (applyAll now items ws) := unique_applyAll hunique ws
  have hwritten : ∀ w ∈ ws, rowOf (applyAll now items ws) w.memoryId = w.row now
      (rowOf items w.memoryId) :=
    fun w hw => row_applyAll hunique hws.nodup hw
  constructor
  · intro hc
    have hrow := row_of_mem hafter hc
    by_cases hmem : c.memoryId ∈ ws.map ItemWrite.memoryId
    · obtain ⟨w, hw, hid⟩ := List.mem_map.mp hmem
      rw [← hid, hwritten w hw] at hrow
      rcases hws.write w hw with ⟨_, ⟨m, hm, b, hb, rfl⟩, rfl⟩ | ⟨m, hm, rfl⟩
      · have hactive := hmerging.consumed m hm b hb
        rw [row, memoryId, row_of_mem hunique hactive.1, Option.map_some, hactive.2.2] at hrow
        exact Or.inr (Or.inl ⟨b, hactive, hw, (Option.some.inj hrow).symm⟩)
      · obtain ⟨origin, horigin, htakes⟩ := hmerging.takes m hm
        rw [row, memoryId, htakes.memoryId, row_of_mem hunique horigin.1] at hrow
        exact Or.inl ⟨m, hm, hw, origin, horigin, htakes, (Option.some.inj hrow).symm⟩
    · rw [row_applyAll_of_not_mem hunique hmem] at hrow
      exact Or.inr (Or.inr ⟨mem_of_row hrow, hmem⟩)
  · rintro (⟨m, hm, hw, origin, horigin, htakes, rfl⟩ | ⟨b, hb, hw, rfl⟩ | ⟨hc, hnot⟩)
    · have hrow := hwritten _ hw
      rw [row, memoryId, htakes.memoryId, row_of_mem hunique horigin.1] at hrow
      exact mem_of_row hrow
    · have hrow := hwritten _ hw
      rw [row, memoryId, row_of_mem hunique hb.1, Option.map_some, hb.2.2] at hrow
      exact mem_of_row hrow
    · have hrow : rowOf (applyAll now items ws) _ = _ := row_applyAll_of_not_mem hunique hnot
      rw [row_of_mem hunique hc] at hrow
      exact mem_of_row hrow

/-- **The active memories after some of the writes**: survivors that are saved, and what is not
written. -/
theorem active_applyAll (hunique : UniqueItems items) (hmerging : Merging tenant items merges)
    (hws : WritesOf merges ws) : Active tenant (applyAll now items ws) c ↔
      (∃ m ∈ merges, .save m.survivor ∈ ws ∧ ∃ origin, Active tenant items origin ∧
        Takes origin m.consumed m.survivor ∧ c = m.survivor.over origin) ∨
      (Active tenant items c ∧ c.memoryId ∉ ws.map ItemWrite.memoryId) := by
  unfold Active
  rw [mem_applyAll hunique hmerging hws]
  constructor
  · rintro ⟨hsaved | ⟨b, -, -, rfl⟩ | ⟨hc, hnot⟩, htenant, harchived⟩
    · exact Or.inl hsaved
    · cases harchived
    · exact Or.inr ⟨⟨hc, htenant, harchived⟩, hnot⟩
  · rintro (⟨m, hm, hw, origin, horigin, htakes, rfl⟩ | ⟨⟨hc, htenant, harchived⟩, hnot⟩)
    · exact ⟨Or.inl ⟨m, hm, hw, origin, horigin, htakes, rfl⟩, horigin.2.1,
        htakes.archived.trans horigin.2.2⟩
    · exact ⟨Or.inr (Or.inr ⟨hc, hnot⟩), htenant, harchived⟩

/-- **What is held after some of the writes**: what a saved survivor holds, and what has not been
forgotten. -/
theorem holds_applyAll (hunique : UniqueItems items) (hmerging : Merging tenant items merges)
    (hws : WritesOf merges ws) : Holds tenant (applyAll now items ws) text ↔
      (∃ m ∈ merges, .save m.survivor ∈ ws ∧ text <:+: m.survivor.content) ∨
      ∃ a, Active tenant items a ∧ .forget a.memoryId ∉ ws ∧ text <:+: a.content := by
  unfold Holds
  simp only [active_applyAll hunique hmerging hws]
  constructor
  · rintro ⟨c, ⟨m, hm, hw, origin, -, -, rfl⟩ | ⟨hactive, hnot⟩, htext⟩
    · exact Or.inl ⟨m, hm, hw, htext⟩
    · exact Or.inr ⟨c, hactive, fun hw => hnot (List.mem_map_of_mem (f := ItemWrite.memoryId) hw),
        htext⟩
  · rintro (⟨m, hm, hw, htext⟩ | ⟨a, ha, hnot, htext⟩)
    · obtain ⟨origin, horigin, htakes⟩ := hmerging.takes m hm
      exact ⟨_, Or.inl ⟨m, hm, hw, origin, horigin, htakes, rfl⟩, htext⟩
    · by_cases hmem : a.memoryId ∈ ws.map ItemWrite.memoryId
      · -- It is a survivor then, and its text is the first part of what is saved.
        obtain ⟨w, hw, hid⟩ := List.mem_map.mp hmem
        rcases hws.write w hw with ⟨id, -, rfl⟩ | ⟨m, hm, rfl⟩
        · obtain rfl : id = a.memoryId := hid
          exact absurd hw hnot
        · obtain ⟨origin, horigin, htakes⟩ := hmerging.takes m hm
          obtain rfl : origin = a :=
            hunique.eq_of_mem horigin.1 ha.1 (htakes.memoryId.symm.trans hid)
          exact ⟨_, Or.inl ⟨m, hm, hw, origin, horigin, htakes, rfl⟩,
            htext.trans htakes.origin_infix⟩
      · exact ⟨a, Or.inr ⟨ha, hmem⟩, htext⟩

/-! ### Survivors and what is merged away -/

theorem Merging.eq_of_mem_members (h : Merging tenant items merges) {m m' : Merge F}
    (hm : m ∈ merges) (hm' : m' ∈ merges)
    (ha : a ∈ m.members) (hb : b ∈ m'.members) (hid : a.memoryId = b.memoryId) : m = m' := by
  by_contra hne
  have hnodup := h.nodup
  rw [List.map_flatMap, List.nodup_flatMap] at hnodup
  have hsymm :
      Std.Symm (Function.onFun List.Disjoint fun m : Merge F =>
        m.members.map MemoryItem.memoryId) :=
    ⟨fun _ _ hdisjoint => hdisjoint.symm⟩
  exact hnodup.2.forall hm hm' hne (List.mem_map_of_mem ha) (hid ▸ List.mem_map_of_mem hb)

/-- A survivor is not merged away. -/
theorem Merging.survivor_stays (h : Merging tenant items merges) {m : Merge F} (hm : m ∈ merges) :
    ¬ MergedAway merges m.survivor.memoryId := by
  rintro ⟨m', hm', b, hb, hid⟩
  obtain rfl := h.eq_of_mem_members hm' hm (List.mem_cons_of_mem _ hb) List.mem_cons_self hid
  have hnodup := h.nodup
  rw [List.map_flatMap, List.nodup_flatMap] at hnodup
  exact (List.nodup_cons.mp (hnodup.1 m' hm)).1 (hid ▸ List.mem_map_of_mem hb)

/-- The merge that a memory is merged away in. -/
theorem Merging.consumed_by (h : Merging tenant items merges) (hunique : UniqueItems items)
    (ha : a ∈ items) (haway : MergedAway merges a.memoryId) : ∃ m ∈ merges, a ∈ m.consumed := by
  obtain ⟨m, hm, b, hb, hid⟩ := haway
  obtain rfl := hunique.eq_of_mem (h.consumed m hm b hb).1 ha hid
  exact ⟨m, hm, hb⟩

end

/-! ## The plan of a consolidation -/

section

open ItemWrite

variable (P : Platform F) (now : F)

/-- The merges that a consolidation sets out to do. -/
def Db.merges (db : Db F) (tenant : Str) : List (Merge F) :=
  (groupsOf (db.listActive P tenant 1000)).flatMap (mergesOf P now)

variable {P now} {db : Db F} {tenant : Str} {groups : List (List (MemoryItem F))} {w : ItemWrite F}

theorem mem_groupWrites {group : List (MemoryItem F)} : w ∈ groupWrites P now group ↔
    (∃ memoryId, MergedAway (mergesOf P now group) memoryId ∧ w = .forget memoryId) ∨
      ∃ m ∈ mergesOf P now group, w = .save m.survivor := by
  unfold groupWrites MergedAway
  simp only [List.mem_append, List.mem_map, List.mem_flatMap, Merge.pairs]
  constructor
  · rintro (⟨_, ⟨m, hm, b, hb, rfl⟩, rfl⟩ | ⟨_, ⟨m, hm, rfl⟩, rfl⟩)
    · exact Or.inl ⟨_, ⟨m, hm, b, hb, rfl⟩, rfl⟩
    · exact Or.inr ⟨m, hm, rfl⟩
  · rintro (⟨_, ⟨m, hm, b, hb, rfl⟩, rfl⟩ | ⟨m, hm, rfl⟩)
    · exact Or.inl ⟨_, ⟨m, hm, b, hb, rfl⟩, rfl⟩
    · exact Or.inr ⟨_, ⟨m, hm, rfl⟩, rfl⟩

theorem mem_groupsWrites : w ∈ groups.flatMap (groupWrites P now) ↔
    (∃ memoryId, MergedAway (groups.flatMap (mergesOf P now)) memoryId ∧ w = .forget memoryId) ∨
      ∃ m ∈ groups.flatMap (mergesOf P now), w = .save m.survivor := by
  unfold MergedAway
  simp only [List.mem_flatMap, mem_groupWrites]
  constructor
  · rintro ⟨group, hgroup, ⟨_, ⟨m, hm, hb⟩, rfl⟩ | ⟨m, hm, rfl⟩⟩
    · exact Or.inl ⟨_, ⟨m, ⟨group, hgroup, hm⟩, hb⟩, rfl⟩
    · exact Or.inr ⟨m, ⟨group, hgroup, hm⟩, rfl⟩
  · rintro (⟨_, ⟨m, ⟨group, hgroup, hm⟩, hb⟩, rfl⟩ | ⟨m, ⟨group, hgroup, hm⟩, rfl⟩)
    · exact ⟨group, hgroup, Or.inl ⟨_, ⟨m, hm, hb⟩, rfl⟩⟩
    · exact ⟨group, hgroup, Or.inr ⟨m, hm, rfl⟩⟩

theorem forget_mem_groupsWrites {memoryId : Str} : .forget memoryId ∈ groups.flatMap
    (groupWrites P now) ↔ MergedAway (groups.flatMap (mergesOf P now)) memoryId := by
  rw [mem_groupsWrites]
  constructor
  · rintro (⟨_, haway, heq⟩ | ⟨_, -, heq⟩)
    · obtain rfl := ItemWrite.forget.inj heq
      exact haway
    · cases heq
  · exact fun haway => Or.inl ⟨memoryId, haway, rfl⟩

theorem save_mem_groupsWrites {m : Merge F} (hm : m ∈ groups.flatMap (mergesOf P now)) :
    .save m.survivor ∈ groups.flatMap (groupWrites P now) :=
    mem_groupsWrites.mpr (Or.inr ⟨m, hm, rfl⟩)

/-- Each member of a merge is written once. -/
theorem groupsWrites_ids : ((groups.flatMap (groupWrites P now)).map ItemWrite.memoryId).Perm
    (((groups.flatMap (mergesOf P now)).flatMap Merge.members).map MemoryItem.memoryId) := by
  rw [List.flatMap_assoc, List.map_flatMap, List.map_flatMap]
  refine List.Perm.flatMap_left _ fun group _ => ?_
  refine .trans ?_ ((members_perm (mergesOf P now group)).map MemoryItem.memoryId).symm
  unfold groupWrites
  rw [List.map_append, List.map_append, List.map_map, List.map_map]
  refine List.perm_append_comm.trans (.append (.refl _) ?_)
  exact .of_eq (pairs_ids _)

theorem nodup_groups_members (h : (groups.flatten.map MemoryItem.memoryId).Nodup) :
    (((groups.flatMap (mergesOf P now)).flatMap Merge.members).map MemoryItem.memoryId).Nodup := by
  have hsub : ∀ group, ((mergesOf P now group).flatMap Merge.members).map MemoryItem.memoryId = [] ∨
      (((mergesOf P now group).flatMap Merge.members).map MemoryItem.memoryId).Perm
      (group.map MemoryItem.memoryId) := by
    intro group
    rcases mergesOf_planned P now with hnone | hplan
    · rw [hnone]
      exact Or.inl rfl
    · exact Or.inr hplan.ids
  rw [List.map_flatten, List.nodup_flatten] at h
  rw [List.flatMap_assoc, List.map_flatMap, List.nodup_flatMap]
  refine ⟨fun group hgroup => ?_, ?_⟩
  · rcases hsub group with hnone | hperm
    · rw [hnone]
      exact List.nodup_nil
    · exact hperm.nodup_iff.mpr (h.1 _ (List.mem_map_of_mem hgroup))
  · refine (List.pairwise_map.mp h.2).imp fun {g g'} hdisjoint => ?_
    have hsubset : ∀ group, ((mergesOf P now group).flatMap Merge.members).map MemoryItem.memoryId ⊆
        group.map MemoryItem.memoryId := by
      intro group
      rcases hsub group with hnone | hperm
      · rw [hnone]
        exact List.nil_subset _
      · exact hperm.subset
    exact fun _ hk hl => hdisjoint (hsubset g hk) (hsubset g' hl)

/-- **The merges of a consolidation** are merges of active memories. -/
theorem merging_merges (hunique : db.Unique) (tenant : Str) :
    Merging tenant db.items (db.merges P now tenant) where
  takes m hm := by
    obtain ⟨group, hgroup, hm⟩ := List.mem_flatMap.mp hm
    obtain ⟨origin, horigin, htakes⟩ := mergesOf_takes m hm
    exact ⟨origin, mem_listActive ((mem_groupsOf hgroup).subset horigin), htakes⟩
  consumed m hm b hb := by
    obtain ⟨group, hgroup, hm⟩ := List.mem_flatMap.mp hm
    rcases mergesOf_planned P now with hnone | hplan
    · rw [hnone] at hm
      cases hm
    · exact mem_listActive ((mem_groupsOf hgroup).subset (hplan.consumed m hm b hb))
  nodup := nodup_groups_members (nodup_groupsOf (nodup_listActive hunique 1000))

theorem writesOf_mergeWrites (hunique : db.Unique) (tenant : Str) :
    WritesOf (db.merges P now tenant) (mergeWrites P now db tenant) where
  nodup := groupsWrites_ids.nodup_iff.mpr (merging_merges hunique tenant).nodup
  write _ hw := mem_groupsWrites.mp hw

end

end Memory
