import Msb.Memory.Laundering
import Msb.Memory.Trail

/-!
# The decay of a memory

Each consolidation multiplies the importance of the memories it lists by a factor for the time since
the last access, and stores the product.

* `consolidate_row` — what a consolidation makes of a memory that it does not merge
* `call_row` — what any call makes of a memory that it leaves alone
-/

namespace Memory

open Py ItemWrite

section

variable {F : Type} {P : Platform F} {now : F} {db : Db F} {item : MemoryItem F}
  {items group : List (MemoryItem F)} {tenant by' memoryId : Str} {ws : List (ItemWrite F)}

/-! ## Merges that take in nothing -/

theorem absorbAll_unmerged {others : List (MemoryItem F)} {survivor : MemoryItem F}
    (h : (absorbAll P now survivor others).consumed = []) :
    (absorbAll P now survivor others).survivor = survivor := by
  induction others generalizing survivor with
  | nil => rfl
  | cons other others ih =>
    unfold absorbAll at h ⊢
    split at h
    · cases h
    · rename_i hdifferent
      rw [if_neg hdifferent]
      exact ih h

theorem mergeAll_unmerged : ∀ m ∈ mergeAll P now items, m.consumed = [] → m.survivor ∈ items := by
  induction items using (mergeAll.induct P now) with
  | case1 =>
    unfold mergeAll
    intro m hm
    cases hm
  | case2 item items r ih =>
    obtain ⟨-, hperm⟩ := absorbAll_spec P now (Grown.refl item)
    rw [mergeAll]
    intro m hm hnone
    rcases List.mem_cons.mp hm with rfl | hm
    · rw [absorbAll_unmerged hnone]
      exact List.mem_cons_self
    · exact List.mem_cons_of_mem _ (hperm.subset (List.mem_append_right _ (ih m hm hnone)))

theorem merges_unmerged {m : Merge F} (hm : m ∈ db.merges P now tenant) (hnone : m.consumed = []) :
    m.survivor ∈ db.items := by
  obtain ⟨group, hgroup, hm⟩ := List.mem_flatMap.mp hm
  refine (mem_listActive ((mem_groupsOf hgroup).subset ?_)).1
  unfold mergesOf at hm
  split at hm
  · cases hm
  · exact List.mem_mergeSort.mp (mergeAll_unmerged m hm hnone)

/-! ## A memory that is not merged -/

/-- A consolidation merges the memory with no other. -/
def Unmerged (P : Platform F) (now : F) (db : Db F) (tenant memoryId : Str) : Prop :=
  ¬ MergedAway (db.merges P now tenant) memoryId ∧
    ∀ m ∈ db.merges P now tenant, m.survivor.memoryId = memoryId → m.consumed = []

/-- It is written as it is, or not at all. -/
theorem row_mergeWrites (hunique : db.Unique) (h : Unmerged P now db tenant memoryId)
    (hws : ws.Sublist (mergeWrites P now db tenant)) :
    rowOf (applyAll now db.items ws) memoryId = rowOf db.items memoryId := by
  have hwrites : WritesOf (db.merges P now tenant) ws :=
    (writesOf_mergeWrites hunique tenant).sublist hws
  by_cases hmem : memoryId ∈ ws.map ItemWrite.memoryId
  swap
  · exact row_applyAll_of_not_mem hunique hmem
  obtain ⟨w, hw, hid⟩ := List.mem_map.mp hmem
  rcases hwrites.write w hw with ⟨_, haway, rfl⟩ | ⟨m, hm, rfl⟩
  · exact absurd (hid ▸ haway) h.1
  · have hrow := row_of_mem hunique (merges_unmerged hm (h.2 m hm hid))
    have hwritten : rowOf (applyAll now db.items ws) _ = _ := row_applyAll hunique hwrites.nodup hw
    obtain rfl : m.survivor.memoryId = memoryId := hid
    rw [hrow]
    refine hwritten.trans ?_
    show some ((rowOf db.items m.survivor.memoryId).elim _ _) = _
    rw [hrow]
    rfl

/-! ## The decay of a memory -/

/-- What the decay stores. -/
def MemoryItem.decayed (P : Platform F) (item : MemoryItem F) (now : F) : MemoryItem F :=
  match decayedImportance P now item with
  | .error _ => item
  | .ok importance =>
    if P.float.lt importance item.importance
      then { item with importance := importance, updatedAt := now } else item

theorem decay_error {e : PyError} (h : (decay P now db item).1 = .error e) :
    (decay P now db item).2 = db := by
  unfold decay at h ⊢
  cases hdecayed : decayedImportance P now item with
  | error e => rfl
  | ok importance =>
    rw [hdecayed] at h
    dsimp only at h ⊢
    split at h
    · unfold upsertSurvivor at h ⊢
      rename_i hlt
      rw [if_pos hlt]
      cases hupsert : db.upsert _ with
      | error e => rfl
      | ok db' =>
        rw [hupsert] at h
        cases h
    · cases h

theorem decay_ok (hunique : db.Unique) (hrow : rowOf db.items memoryId = some item)
    (h : (decay P now db item).1 = .ok ()) :
    rowOf (decay P now db item).2.items memoryId = some (item.decayed P now) := by
  have hid : item.memoryId = memoryId := (Keyed.find_key hrow).2
  unfold decay at h ⊢
  unfold MemoryItem.decayed
  cases hdecayed : decayedImportance P now item with
  | error e =>
    rw [hdecayed] at h
    cases h
  | ok importance =>
    rw [hdecayed] at h
    dsimp only at h ⊢
    split at h
    · rename_i hlt
      rw [if_pos hlt, if_pos hlt]
      unfold upsertSurvivor at h ⊢
      cases hupsert : db.upsert _ with
      | error e =>
        rw [hupsert] at h
        cases h
      | ok db' =>
        obtain ⟨-, rfl⟩ := upsert_eq_ok.mp hupsert
        have hput :=
          row_putItem hunique { item with importance := importance, updatedAt := now } memoryId
        rw [if_pos hid.symm, show rowOf db.items item.memoryId = some item from hid ▸ hrow] at hput
        exact hput
    · rename_i hle
      rw [if_neg hle, if_neg hle]
      exact hrow

theorem each_append {α : Type} (f : Db F → α → Outcome F Unit) (db : Db F) (as bs : List α) :
    each f db (as ++ bs) = (each f db as).andThen fun db => each f db bs := by
  induction as generalizing db with
  | nil => rfl
  | cons a as ih =>
    rw [List.cons_append, each_cons, each_cons]
    obtain ⟨_ | _, mid⟩ := f db a
    · rfl
    · exact ih mid

/-- The decay of other memories. -/
theorem row_decay_others (hunique : db.Unique) (hnot : memoryId ∉ items.map MemoryItem.memoryId) :
    (each (decay P now) db items).2.Unique ∧
      rowOf (each (decay P now) db items).2.items memoryId = rowOf db.items memoryId := by
  obtain ⟨done, hprefix, htable, -⟩ : Runs now (each (decay P now) db items) db.items _ :=
    decay_runs items db
  have hids : memoryId ∉ done.map ItemWrite.memoryId := fun hmem =>
    hnot ((decayWrites_ids items).subset (( hprefix.sublist.map _).subset hmem))
  rw [Db.Unique, htable]
  exact ⟨unique_applyAll hunique done, row_applyAll_of_not_mem hunique hids⟩

/-- The consolidation comes to the memory: the merges go through, the memory is listed after them,
and no memory before it and not it itself stops the decay. -/
def Reaches (P : Platform F) (now : F) (db : Db F) (tenant by' memoryId : Str) : Prop :=
  Encodes [tenant] ∧ ∃ mid, each (consolidateGroup P by' now) db
    (groupsOf (db.listActive P tenant 1000)) = (.ok (), mid) ∧
    ∃ before item behind, mid.listActive P tenant 1000 = before ++ item :: behind ∧
    item.memoryId = memoryId ∧ (each (decay P now) mid (before ++ [item])).1 = .ok ()

theorem decayPass_db (groups : List (List (MemoryItem F))) :
    (decayPass P tenant now groups db).2 =
    (each (decay P now) db (db.listActive P tenant 1000)).2 := by
  unfold decayPass
  dsimp only
  rcases each (decay P now) db (db.listActive P tenant 1000) with ⟨_ | _, _⟩ <;> rfl

theorem each_singleton (f : Db F → MemoryItem F → Outcome F Unit) (db : Db F) (a : MemoryItem F) :
    each f db [a] = f db a := by
  rw [each_cons]
  rcases f db a with ⟨_ | _, _⟩ <;> rfl

/-- The decay up to a memory that has not come before. -/
theorem row_decay_to (hunique : db.Unique) (hrow : rowOf db.items memoryId = some item)
    {before : List (MemoryItem F)} (hnew : memoryId ∉ before.map MemoryItem.memoryId) :
    (each (decay P now) db (before ++ [item])).2.Unique ∧
      rowOf (each (decay P now) db (before ++ [item])).2.items memoryId =
        some (match (each (decay P now) db (before ++ [item])).1 with
          | .error _ => item
          | .ok () => item.decayed P now) := by
  obtain ⟨hmid, hmidRow⟩ : (each (decay P now) db before).2.Unique ∧ _ :=
    row_decay_others hunique hnew
  rw [hrow] at hmidRow
  rw [each_append]
  generalize each (decay P now) db before = out at hmid hmidRow ⊢
  obtain ⟨result, mid⟩ := out
  cases result with
  | error e => exact ⟨hmid, hmidRow⟩
  | ok u =>
    show (each (decay P now) mid [item]).2.Unique ∧
      rowOf (each (decay P now) mid [item]).2.items memoryId =
      some (match (each (decay P now) mid [item]).1 with
        | .error _ => item
        | .ok () => item.decayed P now)
    obtain ⟨done, -, htable, -⟩ : Runs now (each (decay P now) mid [item]) mid.items _ :=
      decay_runs [item] mid
    refine ⟨?_, ?_⟩
    · rw [Db.Unique, htable]
      exact unique_applyAll hmid done
    · rw [each_singleton]
      cases hdecay : (decay P now mid item).1 with
      | error e =>
        rw [decay_error hdecay]
        exact hmidRow
      | ok u => exact decay_ok hmid hmidRow hdecay

/-- The decay of a memory that comes once. -/
theorem row_decay_at (hunique : db.Unique) (hrow : rowOf db.items memoryId = some item)
    {before behind : List (MemoryItem F)}
    (hnodup : ((before ++ item :: behind).map MemoryItem.memoryId).Nodup) :
    rowOf (each (decay P now) db (before ++ item :: behind)).2.items memoryId =
      some (match (each (decay P now) db (before ++ [item])).1 with
        | .error _ => item
        | .ok () => item.decayed P now) := by
  have hid : item.memoryId = memoryId := (Keyed.find_key hrow).2
  rw [List.map_append, List.map_cons, hid, List.nodup_append, List.nodup_cons] at hnodup
  have hnew : memoryId ∉ before.map MemoryItem.memoryId :=
    fun hmem => hnodup.2.2 memoryId hmem memoryId List.mem_cons_self rfl
  obtain ⟨hlast, hlastRow⟩ : (each (decay P now) db (before ++ [item])).2.Unique ∧ _ :=
    row_decay_to hunique hrow hnew
  rw [List.append_cons, each_append]
  generalize each (decay P now) db (before ++ [item]) = out at hlast hlastRow ⊢
  obtain ⟨result, last⟩ := out
  cases result with
  | error e => exact hlastRow
  | ok u => exact (row_decay_others hlast hnodup.2.1.1).2.trans hlastRow

open Classical in
/-- **What a consolidation makes of a memory that it does not merge.** -/
theorem consolidate_row (hunique : db.Unique) (hrow : rowOf db.items memoryId = some item)
    (h : Unmerged P now db tenant memoryId) :
    rowOf (consolidate P db tenant by' now).2.items memoryId =
      some (if Reaches P now db tenant by' memoryId then item.decayed P now else item) := by
  have hid : item.memoryId = memoryId := (Keyed.find_key hrow).2
  unfold consolidate
  cases hbind : bindTexts [tenant] with
  | error e =>
    have hnot : ¬ Reaches P now db tenant by' memoryId := fun hreach => by
      cases hbind.symm.trans (bindTexts_eq_ok.mpr hreach.1 : bindTexts [tenant] = .ok ())
    rw [if_neg hnot]
    exact hrow
  | ok u =>
    have hencodes := bindTexts_eq_ok.mp hbind
    obtain ⟨done, hprefix, htable, -⟩ :
      Runs now (each (consolidateGroup P by' now) db (groupsOf (db.listActive P tenant 1000)))
        db.items (mergeWrites P now db tenant) := each_runs (consolidateGroup_runs by') _ db
    have hmidRow := row_mergeWrites hunique h hprefix.sublist
    have hmidUnique : UniqueItems (applyAll now db.items done) := unique_applyAll hunique done
    rw [← htable, hrow] at hmidRow
    rw [← htable] at hmidUnique
    show rowOf ((each (consolidateGroup P by' now) db _).andThen (decayPass P tenant now _)).2.items
      memoryId = _
    cases hmerging : each (consolidateGroup P by' now) db (groupsOf (db.listActive P tenant 1000))
      with
    | mk result mid =>
      rw [hmerging] at hmidRow hmidUnique
      cases result with
      | error e =>
        have hnot : ¬ Reaches P now db tenant by' memoryId := by
          rintro ⟨-, mid', hmerges, -⟩
          cases hmerging.symm.trans hmerges
        rw [if_neg hnot]
        exact hmidRow
      | ok u =>
        show rowOf (decayPass P tenant now _ mid).2.items memoryId = _
        rw [decayPass_db]
        have hnodup : ((mid.listActive P tenant 1000).map MemoryItem.memoryId).Nodup :=
          nodup_listActive hmidUnique 1000
        -- the memory is listed once, so it decays at most once
        have hsame : ∀ listed ∈ mid.listActive P tenant 1000, listed.memoryId = memoryId →
            listed = item :=
          fun listed hmem hlistedId => hmidUnique.eq_of_mem (mem_listActive hmem).1
            (mem_of_row hmidRow) (hlistedId.trans hid.symm)
        by_cases hreach : Reaches P now db tenant by' memoryId
        · rw [if_pos hreach]
          obtain ⟨-, mid', hmerges, before, listed, behind, hsplit, hlistedId, hreturns⟩ := hreach
          obtain rfl : mid = mid' := congrArg Prod.snd (hmerging.symm.trans hmerges)
          obtain rfl :=
            hsame listed (by rw [hsplit]; exact List.mem_append_right _ List.mem_cons_self)
            hlistedId
          rw [hsplit, row_decay_at hmidUnique hmidRow (hsplit ▸ hnodup), hreturns]
        · rw [if_neg hreach]
          by_cases hlisted : memoryId ∈ (mid.listActive P tenant 1000).map MemoryItem.memoryId
          · obtain ⟨listed, hmem, hlistedId⟩ := List.mem_map.mp hlisted
            obtain ⟨before, behind, hsplit⟩ := List.append_of_mem hmem
            obtain rfl := hsame listed hmem hlistedId
            rw [hsplit, row_decay_at hmidUnique hmidRow (hsplit ▸ hnodup)]
            cases hstops : (each (decay P now) mid (before ++ [listed])).1 with
            | error e => rfl
            | ok u =>
              exact absurd ⟨hencodes, mid, hmerging, before, listed, behind, hsplit, hlistedId,
                hstops⟩ hreach
          · rw [(row_decay_others hmidUnique hlisted).2]
            exact hmidRow

/-! ## Runs in which a memory rests -/

/-- The call does not store another memory under the id, and does not forget, merge or recall the
memory. -/
def Call.Rests (P : Platform F) (memoryId : Str) (db : Db F) : Call F → Prop
  | .storeMemory call uuid _ => call.idOr uuid ≠ memoryId
  | .verifyMemory .. => True
  | .forgetMemory forgotten _ _ _ => forgotten ≠ memoryId
  | .consolidate tenant _ now => Unmerged P now db tenant memoryId
  | .recallMemories call now =>
    ∀ top, call.ranked P db now = .ok top → memoryId ∉ top.map fun hit => hit.2.memoryId

open Classical in
/-- The time of the call, where it decays the memory. -/
noncomputable def Call.decayTimes (P : Platform F) (memoryId : Str) (db : Db F) : Call F → List F
  | .consolidate tenant by' now => if Reaches P now db tenant by' memoryId then [now] else []
  | .storeMemory .. | .verifyMemory .. | .forgetMemory .. | .recallMemories .. => []

/-- The times at which a run decays the memory. -/
noncomputable def decayTimes (P : Platform F) (memoryId : Str) : Db F → List (Call F) → List F
  | _, [] => []
  | db, call :: calls =>
    call.decayTimes P memoryId db ++ decayTimes P memoryId (call.run P db) calls

/-- A memory with another importance, and whatever else the decay does not look at. -/
structure Rested (item item' : MemoryItem F) (importance : F) : Prop where
  decayFactor : item'.decayFactor = item.decayFactor
  lastAccessedAt : item'.lastAccessedAt = item.lastAccessedAt
  importance : item'.importance = importance

theorem Rested.refl (item : MemoryItem F) : Rested item item item.importance := ⟨rfl, rfl, rfl⟩

theorem rested_decayed (P : Platform F) (item : MemoryItem F) (now : F) :
    Rested item (item.decayed P now) (item.decayed P now).importance := by
  unfold MemoryItem.decayed
  split
  · exact .refl item
  · split
    · exact ⟨rfl, rfl, rfl⟩
    · exact .refl item

theorem row_put_of_ne (hunique : db.Unique) (hrow : db.find memoryId = some item)
    {other : MemoryItem F}
    (hne : memoryId ≠ other.memoryId) : (db.put other).find memoryId = some item := by
  rw [find_put hunique, if_neg hne]
  exact hrow

/-- A transition of another memory, or one that keeps what the decay looks at. -/
theorem row_transition (hunique : db.Unique) (hrow : db.find memoryId = some item)
    {moved : MemoryItem F}
    (hmoved : moved.memoryId = memoryId → Rested item moved item.importance) (t : Transition)
    (previousHash : Str) :
    ∃ item', (db.transition P moved t previousHash now).2.find memoryId = some item' ∧
        Rested item item' item.importance := by
  have hput : ∃ item', (db.put moved).find memoryId = some item' ∧
      Rested item item' item.importance := by
    by_cases hid : moved.memoryId = memoryId
    · rw [find_put hunique, if_pos hid.symm, hid, hrow]
      obtain ⟨hdecay, -, himportance⟩ := hmoved hid
      exact ⟨moved.over item, rfl, hdecay, rfl, himportance⟩
    · exact ⟨item, row_put_of_ne hunique hrow (Ne.symm hid), .refl item⟩
  have hitems : (db.transition P moved t previousHash now).2.items = putItem db.items moved ∨ _ :=
    transition_items moved t previousHash
  rcases hitems with hitems | ⟨hitems, -⟩
  · unfold Db.find
    rw [hitems]
    exact hput
  · unfold Db.find
    rw [hitems]
    exact ⟨item, hrow, .refl item⟩

theorem find_touches (now : F) {touched : List Str} (hrow : db.find memoryId = some item)
    (hnot : memoryId ∉ touched) :
    (touched.foldl (Db.touch · now) db).find memoryId = some item := by
  induction touched generalizing db with
  | nil => exact hrow
  | cons t touched ih =>
    rw [List.mem_cons, not_or] at hnot
    rw [List.foldl_cons]
    refine ih ?_ hnot.2
    rw [find_touch, hrow]
    show some (item.touch now t) = _
    rw [MemoryItem.touch, if_neg fun heq => hnot.1 ((find_memoryId hrow).symm.trans heq)]

/-- **What a call makes of a memory that rests.** -/
theorem call_row (hunique : db.Unique) (hrow : db.find memoryId = some item) {call : Call F}
    (h : call.Rests P memoryId db) : ∃ item', (call.run P db).find memoryId = some item' ∧
      Rested item item'
      ((call.decayTimes P memoryId db).foldl (MemoryItem.decayed P) item).importance := by
  cases call with
  | storeMemory call uuid now =>
    refine ⟨item, ?_, .refl item⟩
    show (storeMemory P db call uuid now).2.find memoryId = some item
    unfold storeMemory
    dsimp only
    cases hwritten : (do
      raiseIf (strip call.content = []) (.valueError (lit "content is required"))
      db.upsert (call.item P uuid now)) with
    | error e => exact hrow
    | ok db' =>
      obtain ⟨_, -, hupsert⟩ := bind_eq_ok.mp hwritten
      obtain ⟨-, rfl⟩ := upsert_eq_ok.mp hupsert
      exact row_put_of_ne hunique hrow (Ne.symm h)
  | verifyMemory call now =>
    show ∃ item', (verifyMemory P db call now).2.find memoryId = some item' ∧
      Rested item item' item.importance
    unfold verifyMemory
    cases hchecked : call.checked db with
    | error e => exact ⟨item, hrow, .refl item⟩
    | ok checked =>
      obtain ⟨found, reason⟩ := checked
      refine row_transition hunique hrow (fun hmoved => ?_) _ _
      unfold VerifyCall.checked at hchecked
      obtain ⟨row, hget, hchecked⟩ := bind_eq_ok.mp hchecked
      obtain ⟨_, -, hchecked⟩ := bind_eq_ok.mp hchecked
      obtain ⟨rfl, rfl⟩ := Prod.mk.inj (Except.ok.inj hchecked)
      have hfound := (get_eq_ok.mp hget).2
      obtain rfl : call.memoryId = memoryId := (find_memoryId hfound).symm.trans hmoved
      obtain rfl := Option.some.inj (hfound.symm.trans hrow)
      exact ⟨rfl, rfl, rfl⟩
  | forgetMemory forgotten by' reason now =>
    show ∃ item', (forgetMemory P db forgotten by' reason now).2.find memoryId = some item' ∧
      Rested item item' item.importance
    unfold forgetMemory
    cases hget : db.get forgotten with
    | error e => exact ⟨item, hrow, .refl item⟩
    | ok found =>
      dsimp only
      split
      · exact ⟨item, hrow, .refl item⟩
      · refine row_transition hunique hrow (fun hmoved => absurd ?_ h) _ _
        exact (find_memoryId (get_eq_ok.mp hget).2).symm.trans hmoved
  -- the one call that changes the memory: it decays where the pass reaches it
  | consolidate tenant by' now =>
    refine ⟨_, consolidate_row hunique hrow h, ?_⟩
    unfold Call.decayTimes
    dsimp only
    by_cases hreach : Reaches P now db tenant by' memoryId
    · rw [if_pos hreach, if_pos hreach]
      exact rested_decayed P item now
    · rw [if_neg hreach, if_neg hreach]
      exact .refl item
  | recallMemories call now =>
    refine ⟨item, ?_, .refl item⟩
    show (recallMemories P db call now).2.find memoryId = some item
    unfold recallMemories
    cases hranked : call.ranked P db now with
    | error e => exact hrow
    | ok top =>
      exact find_touches now hrow (h top hranked)

end

end Memory
