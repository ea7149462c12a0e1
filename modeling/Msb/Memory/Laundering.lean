import Msb.Memory.Merging
import Msb.Memory.Lifecycle

/-!
# What a consolidation loses, and what it launders

A consolidation that returns has lost no content. It verifies what is merged into a verified memory,
and a memory that is merged away may be named by others. One that is stopped between two writes may
have forgotten what it has not saved yet.

* `kept_decays` — the decay changes nothing but importance and time
* `consolidate_law` — when a consolidation loses nothing and launders nothing
-/

namespace Memory

open Py ItemWrite

variable {F : Type}

/-! ## The decay -/

section

/-- What the decay leaves alone. -/
def MemoryItem.kept (item : MemoryItem F) : Str × Str × Bool × VerificationState × Str × List Str :=
  (item.memoryId, item.tenant, item.archived, item.verificationState, item.content,
    item.relationships)

variable {P : Platform F} {now : F} {items listed : List (MemoryItem F)} {ws : List (ItemWrite F)}
  {w : ItemWrite F}

theorem mem_decayWrites (hw : w ∈ decayWrites P now listed) :
    ∃ item ∈ listed, ∃ importance,
    w = .save { item with importance := importance, updatedAt := now } := by
  induction listed with
  | nil => cases hw
  | cons item listed ih =>
    unfold decayWrites at hw
    split at hw
    · cases hw
    · split at hw
      · rcases List.mem_cons.mp hw with rfl | hw
        · exact ⟨item, List.mem_cons_self, _, rfl⟩
        · obtain ⟨i, hi, hsave⟩ := ih hw
          exact ⟨i, List.mem_cons_of_mem _ hi, hsave⟩
      · obtain ⟨i, hi, hsave⟩ := ih hw
        exact ⟨i, List.mem_cons_of_mem _ hi, hsave⟩

theorem decayWrites_ids (listed : List (MemoryItem F)) :
    ((decayWrites P now listed).map ItemWrite.memoryId).Sublist
    (listed.map MemoryItem.memoryId) := by
  induction listed with
  | nil => exact List.Sublist.refl _
  | cons item listed ih =>
    unfold decayWrites
    split
    · exact List.nil_sublist _
    · split
      · exact ih.cons_cons _
      · exact ih.cons _

/-- A row is left alone by the decay, but for its importance and its time. -/
theorem row_decays (hunique : UniqueItems items) (hlisted : ∀ item ∈ listed, item ∈ items)
    (hnodup : (listed.map MemoryItem.memoryId).Nodup) (hws : ws.Sublist (decayWrites P now listed))
    (memoryId : Str) :
    (rowOf (applyAll now items ws) memoryId).map MemoryItem.kept =
        (rowOf items memoryId).map MemoryItem.kept := by
  have hids : (ws.map ItemWrite.memoryId).Nodup :=
    (hnodup.sublist (decayWrites_ids listed)).sublist (hws.map _)
  by_cases hmem : memoryId ∈ ws.map ItemWrite.memoryId
  · obtain ⟨w, hw, rfl⟩ := List.mem_map.mp hmem
    rw [row_applyAll hunique hids hw]
    obtain ⟨item, hitem, importance, rfl⟩ := mem_decayWrites (hws.subset hw)
    show Option.map _ (some ((rowOf items item.memoryId).elim _ _)) =
      (rowOf items item.memoryId).map _
    rw [row_of_mem hunique (hlisted item hitem)]
    rfl
  · rw [row_applyAll_of_not_mem hunique hmem]

theorem mem_map_kept (hunique : UniqueItems items)
    (k : Str × Str × Bool × VerificationState × Str × List Str) :
    k ∈ items.map MemoryItem.kept ↔ (rowOf items k.1).map MemoryItem.kept = some k := by
  rw [List.mem_map, Option.map_eq_some_iff]
  constructor
  · rintro ⟨a, ha, rfl⟩
    exact ⟨a, row_of_mem hunique ha, rfl⟩
  · rintro ⟨a, hrow, rfl⟩
    exact ⟨a, mem_of_row hrow, rfl⟩

/-- **The decay changes nothing but importance and time.** -/
theorem kept_decays (hunique : UniqueItems items) (hlisted : ∀ item ∈ listed, item ∈ items)
    (hnodup : (listed.map MemoryItem.memoryId).Nodup) (hws : ws.Sublist (decayWrites P now listed))
    (k : Str × Str × Bool × VerificationState × Str × List Str) :
    k ∈ (applyAll now items ws).map MemoryItem.kept ↔ k ∈ items.map MemoryItem.kept := by
  rw [mem_map_kept hunique, mem_map_kept (unique_applyAll hunique ws),
    row_decays hunique hlisted hnodup hws]

end

/-! ## Tables with the same contents -/

section

/-- Tables that differ in importance and time at most. -/
def SameKept (items items' : List (MemoryItem F)) : Prop :=
  ∀ k, k ∈ items'.map MemoryItem.kept ↔ k ∈ items.map MemoryItem.kept

variable {items items' : List (MemoryItem F)} {tenant text memoryId : Str} {c : MemoryItem F}

theorem SameKept.symm (h : SameKept items items') : SameKept items' items := fun k => (h k).symm

theorem SameKept.mem (h : SameKept items items') (hc : c ∈ items') : ∃ d ∈ items, d.kept = c.kept :=
  List.mem_map.mp ((h c.kept).mp (List.mem_map_of_mem hc))

/-- The text is part of what a VERIFIED memory holds. -/
def Vouched (items : List (MemoryItem F)) (text : Str) : Prop :=
  ∃ a ∈ items, a.verificationState = .verified ∧ text <:+: a.content

/-- The memory is named among the relationships of one active memory. -/
def NamedOnce (tenant : Str) (items : List (MemoryItem F)) (memoryId : Str) : Prop :=
  ∃! c, Active tenant items c ∧ memoryId ∈ c.relationships

/-- A memory of one table with what it keeps in the other. -/
theorem SameKept.active (h : SameKept items items') (hc : Active tenant items' c) :
    ∃ d, Active tenant items d ∧ d.memoryId = c.memoryId ∧ d.content = c.content ∧
    d.relationships = c.relationships := by
  obtain ⟨hc, htenant, harchived⟩ := hc
  obtain ⟨d, hd, hkept⟩ := h.mem hc
  unfold MemoryItem.kept at hkept
  obtain ⟨hid, htenant', harchived', -, hcontent, hrel⟩ := by simpa using hkept
  exact ⟨d, ⟨hd, htenant'.trans htenant, harchived'.trans harchived⟩, hid, hcontent, hrel⟩

theorem SameKept.holds (h : SameKept items items') (hholds : Holds tenant items' text) :
    Holds tenant items text := by
  obtain ⟨c, hc, htext⟩ := hholds
  obtain ⟨d, hd, -, hcontent, -⟩ := h.active hc
  exact ⟨d, hd, hcontent ▸ htext⟩

theorem SameKept.namedOnce (h : SameKept items items') (hunique : UniqueItems items)
    (hnamed : NamedOnce tenant items' memoryId) : NamedOnce tenant items memoryId := by
  obtain ⟨c, ⟨hc, hname⟩, honly⟩ := hnamed
  obtain ⟨d, hd, hid, -, hrel⟩ := h.active hc
  refine ⟨d, ⟨hd, hrel ▸ hname⟩, fun e ⟨he, hname'⟩ => ?_⟩
  obtain ⟨f, hf, hid', -, hrel'⟩ := h.symm.active he
  have hsame : f = c := honly f ⟨hf, hrel' ▸ hname'⟩
  exact hunique.eq_of_mem he.1 hd.1
    (hid'.symm.trans ((congrArg MemoryItem.memoryId hsame).trans hid.symm))

end

/-! ## After all of the writes of the merges -/

/-- All writes of the merges. -/
structure AllWritesOf (merges : List (Merge F)) (ws : List (ItemWrite F)) :
    Prop extends WritesOf merges ws where
  forgets : ∀ memoryId, MergedAway merges memoryId → .forget memoryId ∈ ws
  saves : ∀ m ∈ merges, .save m.survivor ∈ ws

/-- What is merged away is named by no memory that stays, but for its survivor. -/
def NamedByNoOther (tenant : Str) (items : List (MemoryItem F)) (merges : List (Merge F)) : Prop :=
  ∀ m ∈ merges, ∀ b ∈ m.consumed, ∀ a, Active tenant items a → ¬ MergedAway merges a.memoryId →
    b.memoryId ∈ a.relationships → a.memoryId = m.survivor.memoryId

/-- A verified survivor takes in only lines of verified memories. -/
def VouchedOnly (items : List (MemoryItem F)) (merges : List (Merge F)) : Prop :=
  ∀ m ∈ merges, m.survivor.verificationState = .verified → ∀ b ∈ m.consumed,
    ∀ line ∈ lines b.content, Vouched items line

section

variable {tenant memoryId : Str} {items : List (MemoryItem F)} {merges : List (Merge F)}
  {ws : List (ItemWrite F)} (now : F) {a c : MemoryItem F}

theorem holds_of_all (hunique : UniqueItems items) (hmerging : Merging tenant items merges)
    (hws : AllWritesOf merges ws)
    (ha : Active tenant items a) : Holds tenant (applyAll now items ws) a.content := by
  rw [holds_applyAll hunique hmerging hws.toWritesOf]
  by_cases haway : MergedAway merges a.memoryId
  · obtain ⟨m, hm, hconsumed⟩ := hmerging.consumed_by hunique ha.1 haway
    obtain ⟨origin, -, htakes⟩ := hmerging.takes m hm
    exact Or.inl ⟨m, hm, hws.saves m hm, htakes.consumed_infix hconsumed⟩
  · refine Or.inr ⟨a, ha, fun hw => ?_, List.infix_rfl⟩
    rcases hws.write _ hw with ⟨_, haway', heq⟩ | ⟨_, -, heq⟩
    · obtain rfl := ItemWrite.forget.inj heq
      exact haway haway'
    · cases heq

theorem deprecated_of_all (hunique : UniqueItems items) (hmerging : Merging tenant items merges)
    (hws : AllWritesOf merges ws)
    (haway : MergedAway merges memoryId) : ∃ row ∈ applyAll now items ws, row.memoryId = memoryId ∧
      row.verificationState = .deprecated := by
  obtain ⟨m, hm, b, hb, rfl⟩ := haway
  refine ⟨b.forgotten now, (mem_applyAll hunique hmerging hws.toWritesOf).mpr
    (Or.inr (Or.inl ⟨b, hmerging.consumed m hm b hb,
    hws.forgets _ ⟨m, hm, b, hb, rfl⟩, rfl⟩)), rfl, rfl⟩

/-- What is active and not merged away stays, with its relationships. -/
theorem active_stays (hunique : UniqueItems items) (hmerging : Merging tenant items merges)
    (hws : AllWritesOf merges ws)
    (ha : Active tenant items a) (hstays : ¬ MergedAway merges a.memoryId) :
    ∃ c, Active tenant (applyAll now items ws) c ∧ c.memoryId = a.memoryId ∧ ∀ r ∈ a.relationships,
        r ∈ c.relationships := by
  simp only [active_applyAll hunique hmerging hws.toWritesOf]
  by_cases hmem : a.memoryId ∈ ws.map ItemWrite.memoryId
  · obtain ⟨w, hw, hid⟩ := List.mem_map.mp hmem
    rcases hws.write w hw with ⟨_, haway, rfl⟩ | ⟨m, hm, rfl⟩
    · exact absurd (hid ▸ haway) hstays
    · obtain ⟨origin, horigin, htakes⟩ := hmerging.takes m hm
      obtain rfl : origin = a := hunique.eq_of_mem horigin.1 ha.1 (htakes.memoryId.symm.trans hid)
      exact ⟨_, Or.inl ⟨m, hm, hw, origin, horigin, htakes, rfl⟩, hid, fun r hr =>
        (htakes.relationships r).mpr (Or.inl hr)⟩
  · exact ⟨a, Or.inr ⟨ha, hmem⟩, rfl, fun _ hr => hr⟩

/-- **When each merged-away memory is named once.** -/
theorem namedOnce_iff (hunique : UniqueItems items) (hmerging : Merging tenant items merges)
    (hws : AllWritesOf merges ws) :
    (∀ memoryId, MergedAway merges memoryId → NamedOnce tenant (applyAll now items ws) memoryId) ↔
      NamedByNoOther tenant items merges := by
  have hafter : UniqueItems (applyAll now items ws) := unique_applyAll hunique ws
  -- The survivor names what it has taken in.
  have hsurvivor : ∀ m ∈ merges, ∀ b ∈ m.consumed, ∃ c, Active tenant (applyAll now items ws) c ∧
      b.memoryId ∈ c.relationships ∧ c.memoryId = m.survivor.memoryId := by
    intro m hm b hb
    obtain ⟨origin, horigin, htakes⟩ := hmerging.takes m hm
    refine ⟨m.survivor.over origin, ?_, (htakes.relationships _).mpr
      (Or.inr (List.mem_map_of_mem hb)), rfl⟩
    exact (active_applyAll hunique hmerging hws.toWritesOf).mpr
      (Or.inl ⟨m, hm, hws.saves m hm, origin, horigin, htakes, rfl⟩)
  constructor
  · intro h m hm b hb a ha hstays hname
    obtain ⟨c, hc, hcname, hcid⟩ := hsurvivor m hm b hb
    obtain ⟨d, hd, hdid, hdnames⟩ := active_stays now hunique hmerging hws ha hstays
    have hsame := (h _ ⟨m, hm, b, hb, rfl⟩).unique ⟨hd, hdnames _ hname⟩ ⟨hc, hcname⟩
    rw [← hdid, hsame, hcid]
  · rintro h memoryId ⟨m, hm, b, hb, rfl⟩
    obtain ⟨c, hc, hcname, hcid⟩ := hsurvivor m hm b hb
    refine ⟨c, ⟨hc, hcname⟩, fun d ⟨hd, hdname⟩ => hafter.eq_of_mem hd.1 hc.1 ?_⟩
    rw [hcid]
    rcases (active_applyAll hunique hmerging hws.toWritesOf).mp hd with
      ⟨m', hm', -, origin, horigin, htakes, rfl⟩ | ⟨hdactive, hnot⟩
    · rcases (htakes.relationships _).mp hdname with hname | hconsumed
      · have hstays := hmerging.survivor_stays hm'
        rw [htakes.memoryId] at hstays
        exact htakes.memoryId.trans (h m hm b hb origin horigin hstays hname)
      · obtain ⟨b', hb', hid⟩ := List.mem_map.mp hconsumed
        obtain rfl := hmerging.eq_of_mem_members hm' hm (List.mem_cons_of_mem _ hb')
          (List.mem_cons_of_mem _ hb) hid
        rfl
    · refine h m hm b hb d hdactive (fun haway => ?_) hdname
      exact hnot (List.mem_map_of_mem (f := ItemWrite.memoryId) (hws.forgets _ haway))

/-- **When verified memories hold what was verified.** -/
theorem vouched_iff (hunique : UniqueItems items) (hmerging : Merging tenant items merges)
    (hws : AllWritesOf merges ws) :
    (∀ c ∈ applyAll now items ws, c.verificationState = .verified → ∀ line ∈ lines c.content,
      Vouched items line) ↔ VouchedOnly items merges := by
  simp only [mem_applyAll hunique hmerging hws.toWritesOf]
  constructor
  · intro h m hm hverified b hb line hline
    obtain ⟨origin, horigin, htakes⟩ := hmerging.takes m hm
    refine h (m.survivor.over origin) (Or.inl ⟨m, hm, hws.saves m hm, origin, horigin, htakes, rfl⟩)
      hverified line ?_
    exact (mem_lines_content htakes line).mpr (Or.inr ⟨b, hb, Or.inr hline⟩)
  · rintro h c (⟨m, hm, -, origin, horigin, htakes, rfl⟩ | ⟨b, -, -, rfl⟩ | ⟨hc, -⟩) hverified
      line hline
    · have horiginVerified : origin.verificationState = .verified :=
        htakes.verificationState.symm.trans hverified
      rcases (mem_lines_content htakes line).mp hline with hline | ⟨b, hb, rfl | hline⟩
      · exact ⟨origin, horigin.1, horiginVerified, infix_of_mem_lines hline⟩
      · exact ⟨origin, horigin.1, horiginVerified, List.nil_infix⟩
      · exact h m hm hverified b hb line hline
    · cases hverified
    · exact ⟨c, hc, hverified, infix_of_mem_lines hline⟩

end

/-! ## Between two writes -/

section

variable (P : Platform F) (now : F)

/-- When the memories that a group merges away have been forgotten, and its survivors have not been
saved, the content of each of them is in a survivor that an earlier group has saved, or in an active
memory that has not been forgotten. -/
def HeldElsewhere (db : Db F) (tenant : Str) : Prop :=
  ∀ before group behind, groupsOf (db.listActive P tenant 1000) = before ++ group :: behind →
    ∀ m ∈ mergesOf P now group, ∀ b ∈ m.consumed,
      (∃ m' ∈ before.flatMap (mergesOf P now), b.content <:+: m'.survivor.content) ∨
      ∃ a, Active tenant db.items a ∧ ¬ MergedAway ((before ++ [group]).flatMap (mergesOf P now))
        a.memoryId ∧ b.content <:+: a.content

variable {P now} {db : Db F} {tenant : Str} {ws : List (ItemWrite F)} {a : MemoryItem F}

theorem mergedAway_append {merges merges' : List (Merge F)} {memoryId : Str} :
    MergedAway (merges ++ merges') memoryId ↔
    MergedAway merges memoryId ∨ MergedAway merges' memoryId := by
  unfold MergedAway
  simp only [List.mem_append, or_and_right, exists_or]

/-- **When a consolidation that is stopped has lost nothing.** -/
theorem stopped_iff (hunique : db.Unique) (tenant : Str) :
    (∀ ws, ws <+: mergeWrites P now db tenant → ∀ a, Active tenant db.items a →
      Holds tenant (applyAll now db.items ws) a.content) ↔ HeldElsewhere P now db tenant := by
  have hmerging : Merging tenant db.items (db.merges P now tenant) := merging_merges hunique tenant
  have hwrites : WritesOf _ (mergeWrites P now db tenant) := writesOf_mergeWrites hunique tenant
  constructor
  · intro h before group behind hgroups m hm b hb
    have hmem : m ∈ db.merges P now tenant :=
      List.mem_flatMap.mpr ⟨group, by rw [hgroups]; simp, hm⟩
    -- The run is stopped where the group has forgotten and has not saved.
    let forgets := ((mergesOf P now group).flatMap Merge.pairs).map fun merged =>
      ItemWrite.forget (F := F) merged.2.memoryId
    have hstopped : before.flatMap (groupWrites P now) ++ forgets <+:
        mergeWrites P now db tenant := by
      unfold mergeWrites
      rw [hgroups, List.flatMap_append, List.flatMap_cons]
      exact (List.prefix_append_right_inj _).mpr
        ((List.prefix_append _ _).trans (List.prefix_append _ _))
    have hforgets : ∀ w, w ∈ forgets ↔ ∃ memoryId, MergedAway (mergesOf P now group) memoryId ∧
        w = .forget memoryId := by
      intro w
      simp only [forgets, MergedAway, List.mem_map, List.mem_flatMap, Merge.pairs]
      constructor
      · rintro ⟨_, ⟨m, hm, b, hb, rfl⟩, rfl⟩
        exact ⟨_, ⟨m, hm, b, hb, rfl⟩, rfl⟩
      · rintro ⟨_, ⟨m, hm, b, hb, rfl⟩, rfl⟩
        exact ⟨_, ⟨m, hm, b, hb, rfl⟩, rfl⟩
    have hheld := h _ hstopped b (hmerging.consumed m hmem b hb)
    rw [holds_applyAll hunique hmerging (hwrites.sublist hstopped.sublist)] at hheld
    rcases hheld with ⟨m', -, hsaved, htext⟩ | ⟨a, ha, hnot, htext⟩
    · rcases List.mem_append.mp hsaved with hsaved | hsaved
      · rcases mem_groupsWrites.mp hsaved with ⟨_, -, heq⟩ | ⟨m'', hm'', heq⟩
        · cases heq
        · rw [ItemWrite.save.inj heq] at htext
          exact Or.inl ⟨m'', hm'', htext⟩
      · obtain ⟨_, -, heq⟩ := (hforgets _).mp hsaved
        cases heq
    · refine Or.inr ⟨a, ha, fun haway => hnot ?_, htext⟩
      rw [List.flatMap_append, mergedAway_append] at haway
      rcases haway with haway | haway
      · exact List.mem_append_left _ (forget_mem_groupsWrites.mpr haway)
      · rw [List.flatMap_singleton] at haway
        exact List.mem_append_right _ ((hforgets _).mpr ⟨_, haway, rfl⟩)
  · intro h ws hws a ha
    rw [holds_applyAll hunique hmerging (hwrites.sublist hws.sublist)]
    by_cases hforgotten : .forget a.memoryId ∈ ws
    swap
    · exact Or.inr ⟨a, ha, hforgotten, List.infix_rfl⟩
    obtain ⟨m, hm, hconsumed⟩ :=
      hmerging.consumed_by hunique ha.1 (forget_mem_groupsWrites.mp (hws.subset hforgotten))
    obtain ⟨origin, -, htakes⟩ := hmerging.takes m hm
    obtain ⟨group, hgroup, hmgroup⟩ := List.mem_flatMap.mp hm
    obtain ⟨before, behind, hgroups⟩ := List.append_of_mem hgroup
    have hsplit : mergeWrites P now db tenant =
        before.flatMap (groupWrites P now) ++ groupWrites P now group ++ behind.flatMap
        (groupWrites P now) := by
      unfold mergeWrites
      rw [hgroups, List.flatMap_append, List.flatMap_cons, List.append_assoc]
    by_cases hsaved : .save m.survivor ∈ ws
    · exact Or.inl ⟨m, hm, hsaved, htakes.consumed_infix hconsumed⟩
    -- The run is stopped within the group: it has done the writes of the groups before, and none of
    -- those behind.
    have hforgetGroup : .forget a.memoryId ∈ groupWrites P now group :=
      mem_groupWrites.mpr (Or.inl ⟨_, ⟨m, hmgroup, a, hconsumed, rfl⟩, rfl⟩)
    have hbefore : before.flatMap (groupWrites P now) <+: ws := by
      have hprefix : before.flatMap (groupWrites P now) <+: mergeWrites P now db tenant := by
        rw [hsplit, List.append_assoc]
        exact List.prefix_append _ _
      refine (List.prefix_or_prefix_of_prefix hprefix hws).resolve_right fun hshort => ?_
      have hnodup := hwrites.nodup
      rw [hsplit, List.map_append, List.map_append, List.append_assoc, List.nodup_append] at hnodup
      exact hnodup.2.2 _ (List.mem_map_of_mem (hshort.subset hforgotten)) _
        (List.mem_append_left _ (List.mem_map_of_mem hforgetGroup)) rfl
    have hbehind : ws <+: before.flatMap (groupWrites P now) ++ groupWrites P now group := by
      have hprefix : before.flatMap (groupWrites P now) ++ groupWrites P now group <+:
          mergeWrites P now db tenant := by
        rw [hsplit]
        exact List.prefix_append _ _
      refine (List.prefix_or_prefix_of_prefix hprefix hws).resolve_left fun hlong =>
        hsaved (hlong.subset ?_)
      exact List.mem_append_right _ (mem_groupWrites.mpr (Or.inr ⟨m, hmgroup, rfl⟩))
    rcases h before group behind hgroups m hmgroup a hconsumed with ⟨m', hm', htext⟩
      | ⟨c, hc, hstays, htext⟩
    · refine Or.inl ⟨m', ?_, hbefore.subset (save_mem_groupsWrites hm'), htext⟩
      obtain ⟨g, hg, hm'⟩ := List.mem_flatMap.mp hm'
      refine List.mem_flatMap.mpr ⟨g, ?_, hm'⟩
      rw [hgroups]
      exact List.mem_append_left _ hg
    · refine Or.inr ⟨c, hc, fun hw => hstays ?_, htext⟩
      have hmem := hbehind.subset hw
      rw [← List.flatMap_singleton (groupWrites P now) group, ← List.flatMap_append] at hmem
      exact forget_mem_groupsWrites.mp hmem

end

/-! ## The law -/

section

variable (P : Platform F) (now : F)

/-- What a consolidation that returns is to leave. -/
structure Preserved (tenant : Str) (before after : List (MemoryItem F)) (merged : List Str) :
    Prop where
  held : ∀ a, Active tenant before a → Holds tenant after a.content
  deprecated : ∀ memoryId ∈ merged, ∃ row ∈ after, row.memoryId = memoryId ∧
    row.verificationState = .deprecated
  named : ∀ memoryId ∈ merged, NamedOnce tenant after memoryId
  vouched : ∀ c ∈ after, c.verificationState = .verified → ∀ line ∈ lines c.content,
    Vouched before line

/-- A consolidation loses nothing and launders nothing, also where it is stopped between two of its
writes. -/
structure Sound (db : Db F) (tenant by' : Str) : Prop where
  returned : ∀ report, (consolidate P db tenant by' now).1 = .ok report →
    Preserved tenant db.items (consolidate P db tenant by' now).2.items report.deprecations
  stopped : ∀ ws, ws <+: consolidateWrites P now db tenant → ∀ a, Active tenant db.items a →
    Holds tenant (applyAll now db.items ws) a.content

variable {P now} {db : Db F} {tenant by' : Str} {ws : List (ItemWrite F)}

theorem allWritesOf_mergeWrites (hunique : db.Unique) (tenant : Str) :
    AllWritesOf (db.merges P now tenant) (mergeWrites P now db tenant) where
  toWritesOf := writesOf_mergeWrites hunique tenant
  forgets _ haway := forget_mem_groupsWrites.mpr haway
  saves _ hm := save_mem_groupsWrites hm

/-- The writes of the decay that follows the merges. -/
theorem sameKept_decays (hunique : db.Unique) (tenant : Str)
    (hws : ws.Sublist (decayWrites P now ((db.merged P now tenant).listActive P tenant 1000))) :
    SameKept (applyAll now db.items (mergeWrites P now db tenant))
      (applyAll now (applyAll now db.items (mergeWrites P now db tenant)) ws) := by
  have hmerged : (db.merged P now tenant).Unique := unique_applyAll hunique _
  exact kept_decays hmerged (fun item hitem => (mem_listActive hitem).1)
    (nodup_listActive hmerged 1000) hws

theorem andThen_ok {α β : Type} {out : Outcome F α} {f : Db F → Outcome F β} {b : β}
    (h : (out.andThen f).1 = .ok b) : ∃ db, (f db).1 = .ok b := by
  obtain ⟨_ | a, db⟩ := out
  · cases h
  · exact ⟨db, h⟩

/-- What the report lists is what has been merged away. -/
theorem mem_deprecations {report : Report} (h : (consolidate P db tenant by' now).1 = .ok report)
    {memoryId : Str} :
    memoryId ∈ report.deprecations ↔ MergedAway (db.merges P now tenant) memoryId := by
  unfold consolidate at h
  cases hbind : bindTexts [tenant] with
  | error e =>
    rw [hbind] at h
    cases h
  | ok u =>
    rw [hbind] at h
    obtain ⟨mid, hdecay⟩ := andThen_ok h
    obtain ⟨last, hreport⟩ := andThen_ok hdecay
    obtain rfl := Except.ok.inj hreport
    unfold MergedAway Db.merges
    simp only [List.mem_map, List.mem_flatMap]
    constructor
    · rintro ⟨b, ⟨m, hm, hb⟩, rfl⟩
      exact ⟨m, hm, b, hb, rfl⟩
    · rintro ⟨m, hm, b, hb, rfl⟩
      exact ⟨b, ⟨m, hm, hb⟩, rfl⟩

/-- The table of a consolidation that has returned. -/
theorem returned_items {report : Report} (h : (consolidate P db tenant by' now).1 = .ok report) :
    Encodes [tenant] ∧ (consolidate P db tenant by' now).2.items =
      applyAll now (applyAll now db.items (mergeWrites P now db tenant))
        (decayWrites P now ((db.merged P now tenant).listActive P tenant 1000)) := by
  have hencodes : Encodes [tenant] := by
    unfold consolidate at h
    cases hbind : bindTexts [tenant] with
    | error e =>
      rw [hbind] at h
      cases h
    | ok u => exact bindTexts_eq_ok.mp hbind
  obtain ⟨done, -, htable, hdone⟩ : Runs now (consolidate P db tenant by' now) _ _ :=
    consolidate_runs db tenant by'
  rw [htable, hdone ⟨report, h⟩, consolidateWrites, if_pos hencodes, applyAll_append]
  exact ⟨hencodes, rfl⟩

/-- **What a consolidation that returns leaves.** -/
theorem preserved_iff (hunique : db.Unique) {report : Report}
    (h : (consolidate P db tenant by' now).1 = .ok report) :
    Preserved tenant db.items (consolidate P db tenant by' now).2.items report.deprecations ↔
      NamedByNoOther tenant db.items (db.merges P now tenant) ∧
      VouchedOnly db.items (db.merges P now tenant) := by
  have hmerging : Merging tenant db.items (db.merges P now tenant) := merging_merges hunique tenant
  have hwrites : AllWritesOf (db.merges P now tenant) (mergeWrites P now db tenant) :=
    allWritesOf_mergeWrites hunique tenant
  have hmerged : UniqueItems (applyAll now db.items (mergeWrites P now db tenant)) :=
    unique_applyAll hunique _
  have hsame : SameKept (applyAll now db.items (mergeWrites P now db tenant)) _ :=
    sameKept_decays hunique tenant (.refl _)
  have hlast :
      UniqueItems
      (applyAll now _ (decayWrites P now ((db.merged P now tenant).listActive P tenant 1000))) :=
    unique_applyAll hmerged _
  rw [(returned_items h).2]
  generalize applyAll now (applyAll now db.items (mergeWrites P now db tenant)) _ = last
    at hsame hlast ⊢
  constructor
  · intro hpreserved
    refine ⟨(namedOnce_iff now hunique hmerging hwrites).mp fun memoryId haway => ?_,
      (vouched_iff now hunique hmerging hwrites).mp fun c hc hverified line hline => ?_⟩
    · exact hsame.namedOnce hmerged (hpreserved.named memoryId ((mem_deprecations h).mpr haway))
    · obtain ⟨d, hd, hkept⟩ := hsame.symm.mem hc
      obtain ⟨-, -, -, hstate, hcontent, -⟩ := by simpa [MemoryItem.kept] using hkept
      exact hpreserved.vouched d hd (hstate.trans hverified) line (hcontent ▸ hline)
  · rintro ⟨hnamed, hvouched⟩
    refine ⟨fun a ha => ?_, fun memoryId hmem => ?_, fun memoryId hmem => ?_,
      fun c hc hverified line hline => ?_⟩
    · exact hsame.symm.holds (holds_of_all now hunique hmerging hwrites ha)
    · obtain ⟨row, hrow, hid, hstate⟩ :=
        deprecated_of_all now hunique hmerging hwrites ((mem_deprecations h).mp hmem)
      obtain ⟨d, hd, hkept⟩ := hsame.symm.mem hrow
      obtain ⟨hid', -, -, hstate', -⟩ := by simpa [MemoryItem.kept] using hkept
      exact ⟨d, hd, hid'.trans hid, hstate'.trans hstate⟩
    · exact hsame.symm.namedOnce hlast
        ((namedOnce_iff now hunique hmerging hwrites).mpr hnamed memoryId
          ((mem_deprecations h).mp hmem))
    · obtain ⟨d, hd, hkept⟩ := hsame.mem hc
      obtain ⟨-, -, -, hstate, hcontent, -⟩ := by simpa [MemoryItem.kept] using hkept
      exact (vouched_iff now hunique hmerging hwrites).mpr hvouched d hd (hstate.trans hverified)
        line (hcontent ▸ hline)

/-- A consolidation that is stopped, in the merges or in the decay. -/
theorem stopped_writes_iff (hunique : db.Unique) (tenant : Str) :
    (∀ ws, ws <+: consolidateWrites P now db tenant → ∀ a, Active tenant db.items a →
      Holds tenant (applyAll now db.items ws) a.content) ↔
      (Encodes [tenant] → HeldElsewhere P now db tenant) := by
  unfold consolidateWrites
  split
  · rename_i hencodes
    rw [← stopped_iff hunique tenant]
    constructor
    · exact fun h _ ws hws => h ws (hws.trans (List.prefix_append _ _))
    · intro h ws hws a ha
      rcases List.prefix_or_prefix_of_prefix hws (List.prefix_append _ _) with hmerges
        | ⟨decays, rfl⟩
      · exact h hencodes ws hmerges a ha
      · rw [applyAll_append]
        have hdecays := ((List.prefix_append_right_inj _).mp hws).sublist
        exact (sameKept_decays hunique tenant hdecays).symm.holds
          (h hencodes _ List.prefix_rfl a ha)
  · rename_i hencodes
    refine iff_of_true (fun ws hws a ha => ?_) fun h => absurd h hencodes
    rw [List.prefix_nil.mp hws]
    exact ⟨a, ha, List.infix_rfl⟩

/-- **When a consolidation loses nothing and launders nothing.** What it leaves is what the first of
its writes leave. -/
theorem consolidate_law (P : Platform F) (db : Db F) (tenant by' : Str) (now : F)
    (hunique : db.Unique) :
    (∃ ws, ws <+: consolidateWrites P now db tenant ∧ (consolidate P db tenant by' now).2.items =
      applyAll now db.items ws) ∧
    (Sound P now db tenant by' ↔
      ((∃ report, (consolidate P db tenant by' now).1 = .ok report) →
        NamedByNoOther tenant db.items (db.merges P now tenant) ∧
        VouchedOnly db.items (db.merges P now tenant)) ∧
      (Encodes [tenant] → HeldElsewhere P now db tenant)) := by
  obtain ⟨ws, hprefix, htable, -⟩ : Runs now (consolidate P db tenant by' now) _ _ :=
    consolidate_runs db tenant by'
  refine ⟨⟨ws, hprefix, htable⟩, fun h => ⟨?_, ?_⟩, fun ⟨hreturned, hstopped⟩ => ⟨?_, ?_⟩⟩
  · exact fun ⟨report, hreport⟩ => (preserved_iff hunique hreport).mp (h.returned report hreport)
  · exact (stopped_writes_iff hunique tenant).mp h.stopped
  · exact fun report hreport => (preserved_iff hunique hreport).mpr (hreturned ⟨report, hreport⟩)
  · exact (stopped_writes_iff hunique tenant).mpr hstopped

/-! ### Two memories with a tag in common -/

/-- A verified memory. -/
def itemV : MemoryItem ℕ :=
  { itemX with
    memoryId := lit "v", content := lit "a", tags := [lit "t"], importance := 2,
    verificationState := .verified }

/-- A memory that is not. -/
def itemU (content : Str) : MemoryItem ℕ :=
  { itemX with memoryId := lit "u", content := content, tags := [lit "t"] }

def twoItems (content : Str) : Db ℕ := ⟨[itemV, itemU content], []⟩

theorem twoItems_unique (content : Str) : (twoItems content).Unique :=
  show ([lit "v", lit "u"] : List Str).Nodup from by decide

theorem twoItems_groups (content : Str) :
    groupsOf ((twoItems content).listActive Platform.whole (lit "default") 1000) =
      [[itemV, itemU content]] := by
  have hlisted : (twoItems content).listActive Platform.whole (lit "default") 1000 =
      [itemV, itemU content] := by
    have hfilter : ((twoItems content).items.filter fun item =>
        item.tenant = lit "default" ∧ item.archived = false) = [itemV, itemU content] := rfl
    unfold Db.listActive
    rw [hfilter, List.mergeSort_of_pairwise (List.pairwise_pair.mpr rfl)]
    rfl
  rw [hlisted]
  rfl

theorem twoItems_mergesOf (content : Str) : mergesOf Platform.whole 0 [itemV, itemU content] =
    [⟨itemV.absorb Platform.whole (itemU content) 0, [itemU content]⟩] := by
  unfold mergesOf
  rw [if_neg (by simp), List.mergeSort_of_pairwise (List.pairwise_pair.mpr rfl), mergeAll]
  have habsorb : absorbAll Platform.whole 0 itemV [itemU content] =
      ⟨itemV.absorb Platform.whole (itemU content) 0, [itemU content], []⟩ := rfl
  rw [habsorb]
  unfold mergeAll
  rfl

theorem twoItems_merges (content : Str) : (twoItems content).merges Platform.whole 0
    (lit "default") = [⟨itemV.absorb Platform.whole (itemU content) 0, [itemU content]⟩] := by
  unfold Db.merges
  rw [twoItems_groups, List.flatMap_singleton]
  exact twoItems_mergesOf content

/-- The verified memory takes in another one with its content, and still holds it between the two
writes. -/
theorem consolidate_law_single :
    Sound Platform.whole 0 (twoItems (lit "a")) (lit "default") (lit "system") ∧
      (twoItems (lit "a")).merges Platform.whole 0 (lit "default") ≠ [] := by
  have hmerges := twoItems_merges (lit "a")
  have hin : ∀ m ∈ (twoItems (lit "a")).merges Platform.whole 0 (lit "default"), ∀ b ∈ m.consumed,
      b = itemU (lit "a") := by
    intro m hm b hb
    rw [hmerges] at hm
    obtain rfl := List.mem_singleton.mp hm
    exact List.mem_singleton.mp hb
  refine ⟨((consolidate_law Platform.whole (twoItems (lit "a")) (lit "default") (lit "system") 0
    (twoItems_unique _)).2).mpr ⟨fun _ => ⟨?_, ?_⟩, fun _ => ?_⟩, ?_⟩
  · -- no memory names another one
    intro m hm b hb a ha _ hnamed
    rcases List.mem_pair.mp ha.1 with rfl | rfl
    · cases hnamed
    · cases hnamed
  · intro m hm _ b hb line hline
    obtain rfl := hin m hm b hb
    refine ⟨itemV, List.mem_cons_self, rfl, ?_⟩
    have hlines : lines (itemU (lit "a")).content = [lit "a"] := by decide
    rw [hlines] at hline
    rw [List.mem_singleton.mp hline]
    exact List.infix_rfl
  · intro before group behind hsplit m hm b hb
    rw [twoItems_groups] at hsplit
    rcases List.singleton_eq_append_iff.mp hsplit with ⟨rfl, hrest⟩ | ⟨-, hnil⟩
    · obtain ⟨rfl, rfl⟩ := List.cons.inj hrest
      rw [twoItems_mergesOf] at hm
      obtain rfl := List.mem_singleton.mp hm
      obtain rfl := List.mem_singleton.mp hb
      refine .inr ⟨itemV, ⟨List.mem_cons_self, rfl, rfl⟩, ?_, List.infix_rfl⟩
      rw [List.nil_append, List.flatMap_singleton, twoItems_mergesOf]
      rintro ⟨m, hm, b, hb, hid⟩
      obtain rfl := List.mem_singleton.mp hm
      obtain rfl := List.mem_singleton.mp hb
      exact absurd hid (by decide)
    · cases hnil
  · rw [hmerges]
    exact List.cons_ne_nil _ _

/-- The verified memory takes in what is not verified, and between the two writes the content of the
other one is gone. -/
theorem laundered : ¬ Sound Platform.whole 0 (twoItems (lit "b")) (lit "default") (lit "system") ∧
    ¬ VouchedOnly (twoItems (lit "b")).items
    ((twoItems (lit "b")).merges Platform.whole 0 (lit "default")) := by
  refine ⟨fun h => ?_, fun h => ?_⟩
  · have hheld := (stopped_writes_iff (twoItems_unique _) (lit "default")).mp h.stopped
      (by decide) [] [itemV, itemU (lit "b")] [] (twoItems_groups _)
      ⟨itemV.absorb Platform.whole (itemU (lit "b")) 0, [itemU (lit "b")]⟩
      (by rw [twoItems_mergesOf]; exact List.mem_singleton.mpr rfl) (itemU (lit "b"))
        (List.mem_singleton.mpr rfl)
    rcases hheld with ⟨_, hm, -⟩ | ⟨a, ha, hstays, htext⟩
    · cases hm
    · rw [List.nil_append, List.flatMap_singleton, twoItems_mergesOf] at hstays
      rcases List.mem_cons.mp ha.1 with rfl | ha
      · revert htext
        decide
      · rw [List.mem_singleton.mp ha] at hstays
        exact hstays ⟨_, List.mem_singleton.mpr rfl, itemU (lit "b"),
          List.mem_singleton.mpr rfl, rfl⟩
  · rw [twoItems_merges] at h
    obtain ⟨a, ha, hverified, htext⟩ := h _ (List.mem_singleton.mpr rfl) rfl (itemU (lit "b"))
      (List.mem_singleton.mpr rfl) (lit "b") (by decide)
    rcases List.mem_cons.mp ha with rfl | ha
    · revert htext
      decide
    · rw [List.mem_singleton.mp ha] at hverified
      cases hverified

end

end Memory
