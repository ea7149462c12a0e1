import Msb.Memory.Consolidation

/-!
# A consolidation as a list of writes

What a consolidation does to the table of memories is a list of writes that is settled before the
first of them: the merges of a group forget what they merge away and then save their survivors,
group after group, and the decay saves what has lost importance. A run that stops half way has done
the first of these writes.

* `consolidate_runs` — a consolidation does its writes, up to where it raises
* `row_applyAll` — what is stored after writes to distinct memories
-/

namespace Memory

open Py

variable {F : Type}

/-! ## Writes -/

/-- A write to the table of memories. -/
inductive ItemWrite (F : Type) where
  | forget (memoryId : Str)
  | save (item : MemoryItem F)

/-- The row of a memory. -/
abbrev rowOf (items : List (MemoryItem F)) (memoryId : Str) : Option (MemoryItem F) :=
  Keyed.find MemoryItem.memoryId memoryId items

/-- `upsert`, on the table. -/
def putItem (items : List (MemoryItem F)) (item : MemoryItem F) : List (MemoryItem F) :=
  Keyed.put MemoryItem.memoryId ((rowOf items item.memoryId).elim item item.over) items

/-- `forget_memory`, on the table. -/
def forgetItem (now : F) (items : List (MemoryItem F)) (memoryId : Str) : List (MemoryItem F) :=
  match rowOf items memoryId with
  | none => items
  | some row => if row.archived then items else putItem items (row.forgotten now)

namespace ItemWrite

variable (now : F)

def memoryId : ItemWrite F → Str
  | .forget memoryId => memoryId
  | .save item => item.memoryId

/-- The table after a write. -/
def apply (items : List (MemoryItem F)) : ItemWrite F → List (MemoryItem F)
  | .forget memoryId => forgetItem now items memoryId
  | .save item => putItem items item

/-- What becomes of the row of a memory. -/
def row : ItemWrite F → Option (MemoryItem F) → Option (MemoryItem F)
  | .forget _, old => old.map fun row => if row.archived then row else row.forgotten now
  | .save item, old => some (old.elim item item.over)

/-- The table after several writes. -/
def applyAll (items : List (MemoryItem F)) (ws : List (ItemWrite F)) : List (MemoryItem F) :=
  ws.foldl (apply now) items

end ItemWrite

/-- No two memories of the table share an id. -/
abbrev UniqueItems (items : List (MemoryItem F)) : Prop := Keyed.Unique MemoryItem.memoryId items

section

open ItemWrite

variable {now : F} {items : List (MemoryItem F)} {ws : List (ItemWrite F)} {w : ItemWrite F}
  {memoryId : Str}

theorem row_putItem (h : UniqueItems items) (item : MemoryItem F) (memoryId : Str) :
    rowOf (putItem items item) memoryId =
    if memoryId = item.memoryId then some ((rowOf items item.memoryId).elim item item.over)
    else rowOf items memoryId := by
  unfold putItem
  rw [rowOf, Keyed.find_put h, stored_memoryId]

theorem row_forgetItem (h : UniqueItems items) (id memoryId : Str) :
    rowOf (forgetItem now items id) memoryId =
    if memoryId = id then (rowOf items id).map fun row => if row.archived then row
    else row.forgotten now
    else rowOf items memoryId := by
  unfold forgetItem
  cases hrow : rowOf items id with
  | none =>
    by_cases heq : memoryId = id
    · rw [if_pos heq, heq, hrow, Option.map_none]
    · rw [if_neg heq]
  | some row =>
    have hid : row.memoryId = id := (Keyed.find_key hrow).2
    rw [Option.map_some]
    cases harchived : row.archived with
    | true =>
      by_cases heq : memoryId = id
      · simp [harchived, heq, hrow]
      · simp [harchived, heq]
    | false =>
      -- What is stored of the forgotten row is the forgotten row.
      have hput := row_putItem h (row.forgotten now) memoryId
      rw [show (row.forgotten now).memoryId = id from hid, hrow] at hput
      simp only [harchived, Bool.false_eq_true, if_false]
      exact hput

theorem row_apply (h : UniqueItems items) (w : ItemWrite F) (memoryId : Str) :
    rowOf (w.apply now items) memoryId =
    if memoryId = w.memoryId then w.row now (rowOf items memoryId) else rowOf items memoryId := by
  cases w with
  | save item =>
    refine (row_putItem h item memoryId).trans (ite_congr rfl (fun heq => ?_) fun _ => rfl)
    rw [heq]
    rfl
  | forget id =>
    refine (row_forgetItem h id memoryId).trans (ite_congr rfl (fun heq => ?_) fun _ => rfl)
    rw [heq]
    rfl

theorem unique_apply (h : UniqueItems items) (w : ItemWrite F) :
    UniqueItems (w.apply now items) := by
  cases w with
  | save item => exact h.put
  | forget id =>
    show UniqueItems (forgetItem now items id)
    unfold forgetItem
    cases rowOf items id with
    | none => exact h
    | some row =>
      dsimp only
      split
      · exact h
      · exact h.put

theorem unique_applyAll (h : UniqueItems items) (ws : List (ItemWrite F)) :
    UniqueItems (applyAll now items ws) := by
  induction ws generalizing items with
  | nil => exact h
  | cons w ws ih => exact ih (unique_apply h w)

/-- A memory that is not written. -/
theorem row_applyAll_of_not_mem : ∀ {ws : List (ItemWrite F)} {items : List (MemoryItem F)},
    UniqueItems items →
    memoryId ∉ ws.map ItemWrite.memoryId → rowOf (applyAll now items ws) memoryId =
    rowOf items memoryId
  | [], _, _, _ => rfl
  | w :: ws, items, h, hnot => by
    rw [List.map_cons, List.mem_cons, not_or] at hnot
    refine (row_applyAll_of_not_mem (unique_apply h w) hnot.2).trans ?_
    rw [row_apply h, if_neg hnot.1]

/-- **What is stored after writes to distinct memories**: each row is what its write makes of it. -/
theorem row_applyAll : ∀ {ws : List (ItemWrite F)} {items : List (MemoryItem F)},
    UniqueItems items →
    (ws.map ItemWrite.memoryId).Nodup → w ∈ ws → rowOf (applyAll now items ws) w.memoryId =
    w.row now (rowOf items w.memoryId)
  | v :: ws, items, h, hnd, hw => by
    rw [List.map_cons, List.nodup_cons] at hnd
    show rowOf (applyAll now (v.apply now items) ws) w.memoryId = _
    rcases List.mem_cons.mp hw with rfl | hw
    · rw [row_applyAll_of_not_mem (unique_apply h w) hnd.1, row_apply h, if_pos rfl]
    · have hne : w.memoryId ≠ v.memoryId := fun heq => hnd.1 (heq ▸ List.mem_map_of_mem hw)
      rw [row_applyAll (unique_apply h v) hnd.2 hw, row_apply h, if_neg hne]

theorem applyAll_append (items : List (MemoryItem F)) (ws vs : List (ItemWrite F)) :
    applyAll now items (ws ++ vs) = applyAll now (applyAll now items ws) vs := List.foldl_append

end

/-! ## The writes of a consolidation -/

section

variable (P : Platform F) (now : F)

/-- What is merged away is forgotten, and then the survivors are saved. -/
def groupWrites (group : List (MemoryItem F)) : List (ItemWrite F) :=
  let merges := mergesOf P now group
  (merges.flatMap Merge.pairs).map (fun merged => .forget merged.2.memoryId) ++
    (merges.map Merge.survivor).map .save

/-- The decay, up to where it raises. -/
def decayWrites : List (MemoryItem F) → List (ItemWrite F)
  | [] => []
  | item :: items =>
    match decayedImportance P now item with
    | .error _ => []
    | .ok importance =>
      if P.float.lt importance item.importance then
        .save { item with importance := importance, updatedAt := now } :: decayWrites items
      else decayWrites items

def mergeWrites (db : Db F) (tenant : Str) : List (ItemWrite F) :=
  (groupsOf (db.listActive P tenant 1000)).flatMap (groupWrites P now)

/-- The table after the merges. -/
def Db.merged (db : Db F) (tenant : Str) : Db F :=
  { db with items := ItemWrite.applyAll now db.items (mergeWrites P now db tenant) }

/-- What a consolidation writes. Nothing is listed for a tenant that cannot be bound. -/
def consolidateWrites (db : Db F) (tenant : Str) : List (ItemWrite F) :=
  if Encodes [tenant] then
    mergeWrites P now db tenant ++ decayWrites P now
      ((db.merged P now tenant).listActive P tenant 1000)
  else []

end

/-! ## Runs -/

section

open ItemWrite

variable {α β : Type} {P : Platform F} {now : F} {db : Db F} {items : List (MemoryItem F)}
  {ws vs : List (ItemWrite F)} {w : ItemWrite F}

/-- What a call leaves is what the first of its writes leave, and all of them where it returns. -/
def Runs (now : F) (out : Outcome F α) (items : List (MemoryItem F)) (ws : List (ItemWrite F)) :
    Prop :=
  ∃ done, done <+: ws ∧ out.2.items = applyAll now items done ∧ ((∃ a, out.1 = .ok a) → done = ws)

theorem runs_nil (a : α) : Runs now (.ok a, db) db.items [] :=
  ⟨[], List.nil_prefix, rfl, fun _ => rfl⟩

theorem runs_error (e : PyError) : Runs now ((.error e, db) : Outcome F α) db.items ws :=
  ⟨[], List.nil_prefix, rfl, fun ⟨_, ha⟩ => (by cases ha)⟩

/-- A call that writes, or raises and leaves the table. -/
theorem runs_single {out : Outcome F α} (h : out.2.items = w.apply now items ∨
    (out.2.items = items ∧ ∀ a, out.1 ≠ .ok a)) : Runs now out items [w] := by
  rcases h with h | ⟨h, hraise⟩
  · exact ⟨[w], List.prefix_rfl, h, fun _ => rfl⟩
  · exact ⟨[], List.nil_prefix, h, fun ⟨a, ha⟩ => absurd ha (hraise a)⟩

theorem Runs.andThen {out : Outcome F α} {f : Db F → Outcome F β} (h : Runs now out items ws)
    (hf : ∀ db, db.items = applyAll now items ws → Runs now (f db) db.items vs) :
    Runs now (out.andThen f) items (ws ++ vs) := by
  obtain ⟨done, hprefix, htable, hok⟩ := h
  obtain ⟨result, db⟩ := out
  cases result with
  | error e =>
    exact ⟨done, hprefix.trans (List.prefix_append ws vs), htable, fun ⟨_, ha⟩ => (by cases ha)⟩
  | ok a =>
    obtain rfl := hok ⟨a, rfl⟩
    obtain ⟨more, hmore, htable', hok'⟩ := hf db htable
    refine ⟨done ++ more, (List.prefix_append_right_inj done).mpr hmore, ?_, fun hreturns => ?_⟩
    · rw [applyAll_append, ← htable]
      exact htable'
    · rw [hok' hreturns]

theorem each_cons (f : Db F → α → Outcome F Unit) (db : Db F) (a : α) (as : List α) :
    each f db (a :: as) = (f db a).andThen fun db => each f db as := by
  rw [each]
  rcases f db a with ⟨_ | _, _⟩ <;> rfl

/-- A loop of calls, each with writes of its own. -/
theorem each_runs {f : Db F → α → Outcome F Unit} {writes : α → List (ItemWrite F)}
    (hf : ∀ db a, Runs now (f db a) db.items (writes a)) (as : List α) (db : Db F) :
    Runs now (each f db as) db.items (as.flatMap writes) := by
  induction as generalizing db with
  | nil => exact runs_nil ()
  | cons a as ih =>
    rw [each_cons, List.flatMap_cons]
    exact (hf db a).andThen fun db _ => ih db

theorem upsertSurvivor_runs (db : Db F) (item : MemoryItem F) :
    Runs now (upsertSurvivor db item) db.items [.save item] := by
  unfold upsertSurvivor
  cases hupsert : db.upsert item with
  | error e => exact runs_error e
  | ok db' =>
    obtain ⟨-, rfl⟩ := upsert_eq_ok.mp hupsert
    exact runs_single (Or.inl rfl)

/-- The memory of a transition is written, whether or not the transition can be recorded. -/
theorem transition_items (item : MemoryItem F) (t : Transition) (previousHash : Str) :
    (db.transition P item t previousHash now).2.items = putItem db.items item ∨
      ((db.transition P item t previousHash now).2.items = db.items ∧
        ∀ a, (db.transition P item t previousHash now).1 ≠ .ok a) := by
  unfold Db.transition
  cases hupsert : db.upsert item with
  | error e => exact Or.inr ⟨rfl, fun _ ha => (by cases ha)⟩
  | ok db' =>
    obtain ⟨-, rfl⟩ := upsert_eq_ok.mp hupsert
    dsimp only
    cases hrecord : (db.put item).recordVerification P t previousHash now with
    | error e => exact Or.inl rfl
    | ok db'' =>
      obtain ⟨record, -, rfl⟩ := recordVerification_eq_ok.mp hrecord
      exact Or.inl rfl

theorem forgetMemory_runs (db : Db F) (memoryId by' reason : Str) :
    Runs now (forgetMemory P db memoryId by' reason now) db.items [.forget memoryId] := by
  unfold forgetMemory
  cases hget : db.get memoryId with
  | error e => exact runs_error e
  | ok row =>
    have hrow : rowOf db.items memoryId = some row := (get_eq_ok.mp hget).2
    refine runs_single ?_
    show _ ∨ _
    simp only [apply, forgetItem, hrow]
    cases harchived : row.archived with
    | true => exact Or.inl rfl
    | false => exact transition_items _ _ _

theorem forgetConsumed_runs (by' : Str) (db : Db F) (merged : Str × MemoryItem F) :
    Runs now (forgetConsumed P by' now db merged) db.items [.forget merged.2.memoryId] :=
  (forgetMemory_runs db _ by' _).andThen fun _ _ => runs_nil ()

theorem consolidateGroup_runs (by' : Str) (db : Db F) (group : List (MemoryItem F)) :
    Runs now (consolidateGroup P by' now db group) db.items (groupWrites P now group) := by
  have hforgets : Runs now (each (forgetConsumed P by' now) db _) db.items _ :=
    each_runs (forgetConsumed_runs by') ((mergesOf P now group).flatMap Merge.pairs) db
  rw [← List.map_eq_flatMap] at hforgets
  refine hforgets.andThen fun mid _ => ?_
  have hsaves : Runs now (each upsertSurvivor mid _) mid.items _ :=
    each_runs upsertSurvivor_runs ((mergesOf P now group).map Merge.survivor) mid
  rw [← List.map_eq_flatMap] at hsaves
  exact hsaves

theorem decay_runs (items : List (MemoryItem F)) (db : Db F) :
    Runs now (each (decay P now) db items) db.items (decayWrites P now items) := by
  induction items generalizing db with
  | nil => exact runs_nil ()
  | cons item items ih =>
    rw [each_cons]
    unfold decay decayWrites
    cases decayedImportance P now item with
    | error e => exact runs_error e
    | ok importance =>
      dsimp only
      split
      · exact (upsertSurvivor_runs db _).andThen fun db _ => ih db
      · exact ih db

theorem decayPass_runs (db : Db F) (tenant : Str) (groups : List (List (MemoryItem F))) :
    Runs now (decayPass P tenant now groups db) db.items
    (decayWrites P now (db.listActive P tenant 1000)) := by
  unfold decayPass
  dsimp only
  rw [← List.append_nil (decayWrites P now (db.listActive P tenant 1000))]
  exact (decay_runs _ db).andThen fun _ _ => runs_nil _

/-- **A consolidation does its writes**, up to where it raises. -/
theorem consolidate_runs (db : Db F) (tenant by' : Str) :
    Runs now (consolidate P db tenant by' now) db.items (consolidateWrites P now db tenant) := by
  unfold consolidate consolidateWrites
  cases hbind : bindTexts [tenant] with
  | error e => exact runs_error e
  | ok u =>
    rw [if_pos (bindTexts_eq_ok.mp hbind)]
    refine (each_runs (consolidateGroup_runs by') _ db).andThen fun mid hmid => ?_
    have hlisted : mid.listActive P tenant 1000 = (db.merged P now tenant).listActive P tenant
        1000 := by
      unfold Db.listActive
      rw [hmid]
      rfl
    rw [← hlisted]
    exact decayPass_runs mid tenant _

end

end Memory
