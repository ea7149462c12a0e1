import Msb.Infra.Run
import Msb.Retrieval.VectorStore

/-!
# One store for the other

What both backends are for is a list of documents with one document for each id: an indexed document
replaces the one with its id and is the newest, and a deleted id is gone. Each backend is compared
with this list. SQLite keeps it as it is; Qdrant does, in any order, where the points with the id of
a document are the points with its point id, which they are not where a document has several chunks.

A search of SQLite looks at the newest rows only.

* `run_interchangeable` — after every run that keeps to the list, the searches answer alike, exactly
  where the rows that SQLite leaves out do not score
-/

namespace Retrieval

open Py Ledger Ranking

section

variable {F : Type} [Field F] [LinearOrder F] {σ : Type}

/-! ## Both stores -/

/-- A call, with the time of each write of SQLite. -/
inductive StoreCall (F : Type) where
  | index (docs : List (VectorDocument F × F))
  | update (docs : List (VectorDocument F × F))
  | delete (ids : List Str)

structure Stores (F σ : Type) where
  server : σ
  rows : List (Row F)

variable (Q : Qdrant F σ) (E : Env F) (tenantId : Str)

def Stores.empty : Stores F σ := ⟨Q.empty, []⟩

def Stores.points (s : Stores F σ) : List (Point F) :=
  (Q.points s.server (collection tenantId)).getD []

def Stores.ownRows (s : Stores F σ) : List (Row F) := SQLiteVectorStore.ownRows s.rows tenantId

/-- The call is made to both stores. -/
def StoreCall.run (s : Stores F σ) : StoreCall F → Stores F σ
  | .index docs | .update docs =>
    ⟨(QdrantVectorStore.index E Q s.server tenantId (docs.map Prod.fst)).2,
      (SQLiteVectorStore.index s.rows tenantId docs).2⟩
  | .delete ids =>
    ⟨(QdrantVectorStore.delete E Q s.server tenantId ids).2,
      (SQLiteVectorStore.delete E s.rows tenantId ids).2⟩

def storesStep (s : Stores F σ) (call : StoreCall F) : Option (Stores F σ) :=
  some (call.run Q E tenantId s)

/-! ## What is claimed -/

/-- The id of the document of a point, as a hit has it. -/
def Point.docId (p : Point F) : Str := str E ((p.payload.get (lit "id")).getD (.str p.id))

/-- Both answer, with the same ids and texts in the same order. -/
def SameAnswer (s : Stores F σ) (query : List F) (limit : Int) : Prop :=
  ∃ hits hits', QdrantVectorStore.search E Q s.server tenantId query limit = .ok hits ∧
    SQLiteVectorStore.search E s.rows tenantId query limit = .ok hits' ∧
    hits.map (fun h => (h.id, h.text)) = hits'.map fun h => (h.id, h.text)

/-- Nothing with a listed id is left in either store. -/
def Removed (s : Stores F σ) (ids : List Str) : Prop :=
  (∀ p ∈ s.points Q tenantId, p.docId E ∉ ids) ∧ ∀ r ∈ s.ownRows tenantId, r.id ∉ ids

/-- No two stored documents have one score. -/
def Distinct (s : Stores F σ) (query : List F) : Prop :=
  ((s.points Q tenantId).map fun p => cosine E query p.vector).Nodup ∧
    ((s.ownRows tenantId).map fun r => cosine E query r.embedding).Nodup

/-- A search that both backends take: the collection is there, and query and limit are in bounds. -/
structure Answerable (s : Stores F σ) (query : List F) (limit : Int) : Prop where
  exists_collection : (Q.points s.server (collection tenantId)).isSome = true
  length_query : query.length = embedDim
  one_le : 1 ≤ limit
  window_lt : SQLiteVectorStore.window limit < 2 ^ 63
  encodes : (encode tenantId).isSome = true

/-! ## The conditions -/

/-- The points with the id of a document are the points with its point id. -/
def Fits (points : List (Point F)) (id : Str) (chunk : Int) : Prop :=
  ∀ p ∈ points, p.id = QdrantVectorStore.pointId E id chunk ↔ p.docId E = id

def FitsAll : List (Point F) → List (VectorDocument F × F) → Prop
  | _, [] => True
  | points, (d, _) :: docs =>
    Fits E points d.id d.chunk ∧ FitsAll (putPoint points (QdrantVectorStore.point E d)) docs

/-- Documents that both backends can store. -/
structure Storable (docs : List (VectorDocument F × F)) : Prop where
  name : Q.validName (collection tenantId) = true
  vectors : ∀ d ∈ docs, d.1.embedding.length = embedDim
  rows : ∀ d ∈ docs, ∃ row, SQLiteVectorStore.rowOf tenantId d.1 d.2 = .ok row

/-- Ids that SQLite can look for in one statement. -/
structure Deletable (ids : List Str) : Prop where
  count : ids.length + 1 ≤ E.maxVariables
  texts : ∀ text ∈ tenantId :: ids, encode text ≠ none

/-- The call keeps to one document for each id. -/
def Keeps (s : Stores F σ) : StoreCall F → Prop
  | .index docs | .update docs => Storable Q tenantId docs ∧ FitsAll E (s.points Q tenantId) docs
  | .delete ids => Deletable E tenantId ids ∧ ∀ id ∈ ids, Fits E (s.points Q tenantId) id 0

/-- A row that is not among the newest scores lower than `limit` others. -/
def Covered (s : Stores F σ) (query : List F) (limit : Int) : Prop :=
  ∀ r ∈ (SQLiteVectorStore.newestFirst s.rows tenantId).drop (SQLiteVectorStore.window limit),
    limit.toNat ≤ ((s.ownRows tenantId).filter fun r' =>
      cosine E query r.embedding < cosine E query r'.embedding).length

end

/-! ## The list of documents -/

section

variable {F : Type} {E : Env F} {tenantId : Str} {points : List (Point F)} {rows : List (Row F)}
  {docs : List (VectorDocument F)}

def putDoc (docs : List (VectorDocument F)) (d : VectorDocument F) : List (VectorDocument F) :=
  (docs.filter fun d' => d'.id ≠ d.id) ++ [d]

/-- What a row says of its document. -/
structure RowOf (r : Row F) (d : VectorDocument F) : Prop where
  id : r.id = d.id
  text : r.text = d.text
  embedding : r.embedding = d.embedding

/-- The points and the rows are those of the documents, and the rows in the order of the documents.
-/
structure Holds (E : Env F) (points : List (Point F)) (rows : List (Row F))
    (docs : List (VectorDocument F)) : Prop where
  points : points.Perm (docs.map (QdrantVectorStore.point E))
  rows : List.Forall₂ RowOf rows docs

@[simp] theorem docId_point (d : VectorDocument F) : (QdrantVectorStore.point E d).docId E = d.id :=
  rfl

theorem holds_empty : Holds E [] ([] : List (Row F)) [] := ⟨.refl _, .nil⟩

/-- What goes from the points goes from the documents. -/
theorem Holds.filter (h : Holds E points rows docs) (keepPoint : Point F → Bool) (keep : Str → Bool)
    (hkeep : ∀ p ∈ points, keepPoint p = keep (p.docId E)) :
    Holds E (points.filter keepPoint) (rows.filter fun r => keep r.id)
      (docs.filter fun d => keep d.id) where
  points := by
    refine (h.points.filter keepPoint).trans (.of_eq ?_)
    rw [List.filter_map]
    congr 1
    refine List.filter_congr fun d hd => ?_
    exact hkeep _ (h.points.mem_iff.mpr (List.mem_map_of_mem hd))
  rows := by
    have hrows := h.rows
    clear h hkeep
    induction hrows with
    | nil => exact .nil
    | @cons r d rows docs hrd _ ih =>
      rw [List.filter_cons, List.filter_cons, hrd.id]
      split
      · exact .cons hrd ih
      · exact ih

/-- A document that is put into both stores. -/
theorem Holds.put (h : Holds E points rows docs) {d : VectorDocument F} {r : Row F}
    (hfits : Fits E points d.id d.chunk) (hrow : RowOf r d) :
    Holds E (putPoint points (QdrantVectorStore.point E d))
      ((rows.filter fun r' => decide (r'.id ≠ r.id)) ++ [r]) (putDoc docs d) := by
  have hkept := h.filter (fun p => decide (p.id ≠ (QdrantVectorStore.point E d).id))
    (fun id => decide (id ≠ d.id)) fun p hp => decide_eq_decide.mpr (not_congr (hfits p hp))
  refine ⟨?_, ?_⟩
  · unfold putPoint putDoc
    rw [List.map_append, List.map_singleton]
    exact hkept.points.append_right _
  · rw [hrow.id]
    exact List.rel_append hkept.rows (.cons hrow .nil)

theorem rowOf_spec {d : VectorDocument F} {now : F} {r : Row F}
    (h : SQLiteVectorStore.rowOf tenantId d now = .ok r) : r.tenantId = tenantId ∧ RowOf r d := by
  obtain ⟨metadata, -, h⟩ := bind_eq_ok.mp h
  obtain ⟨_, -, h⟩ := bind_eq_ok.mp h
  obtain ⟨_, -, h⟩ := bind_eq_ok.mp h
  obtain rfl := Except.ok.inj h
  exact ⟨rfl, rfl, rfl, rfl⟩

theorem ownRows_put {r : Row F} (h : r.tenantId = tenantId) : SQLiteVectorStore.ownRows
    (SQLiteVectorStore.put rows r) tenantId =
    ((SQLiteVectorStore.ownRows rows tenantId).filter fun r' => decide (r'.id ≠ r.id)) ++ [r] := by
  unfold SQLiteVectorStore.ownRows SQLiteVectorStore.put
  rw [List.filter_append, List.filter_filter, List.filter_filter]
  congr 1
  · refine List.filter_congr fun r' _ => ?_
    by_cases hr' : r'.tenantId = tenantId <;> simp [hr', h]
  · simp [h]

/-- **An index.** -/
theorem Holds.index : ∀ {new : List (VectorDocument F × F)} {points : List (Point F)}
    {rows : List (Row F)} {docs : List (VectorDocument F)},
      Holds E points (SQLiteVectorStore.ownRows rows tenantId) docs →
      (∀ d ∈ new, ∃ row, SQLiteVectorStore.rowOf tenantId d.1 d.2 = .ok row) →
        FitsAll E points new →
        ∃ stored, SQLiteVectorStore.indexFrom tenantId rows new = .ok stored ∧
          Holds E ((new.map fun d => QdrantVectorStore.point E d.1).foldl putPoint points)
            (SQLiteVectorStore.ownRows stored tenantId) ((new.map Prod.fst).foldl putDoc docs)
  | [], _, rows, _, h, _, _ => ⟨rows, rfl, h⟩
  | (d, now) :: new, points, rows, docs, h, hrows, hfits => by
    obtain ⟨row, hrow⟩ := hrows (d, now) List.mem_cons_self
    obtain ⟨htenant, hof⟩ := rowOf_spec hrow
    have hput := h.put hfits.1 hof
    rw [← ownRows_put htenant] at hput
    obtain ⟨stored, hstored, hholds⟩ :=
      hput.index (fun d' hd' => hrows d' (List.mem_cons_of_mem _ hd')) hfits.2
    refine ⟨stored, ?_, hholds⟩
    exact bind_eq_ok.mpr ⟨row, hrow, hstored⟩

end

/-! ## One call -/

section

variable {F σ : Type} {Q : Qdrant F σ} {E : Env F} {tenantId : Str} {s t : Stores F σ}

/-- Both stores hold one list of documents, with one document for each id. -/
def Agree (Q : Qdrant F σ) (E : Env F) (tenantId : Str) (s : Stores F σ) : Prop :=
  ∃ docs, Holds E (s.points Q tenantId) (s.ownRows tenantId) docs ∧
    (docs.map VectorDocument.id).Nodup

theorem nodup_putDoc {docs : List (VectorDocument F)} (h : (docs.map VectorDocument.id).Nodup)
    (d : VectorDocument F) : ((putDoc docs d).map VectorDocument.id).Nodup := by
  unfold putDoc
  rw [List.map_append, List.nodup_append]
  refine ⟨h.sublist (List.filter_sublist.map _), List.nodup_singleton _, fun id hid id' hid' => ?_⟩
  obtain ⟨d', hd', rfl⟩ := List.mem_map.mp hid
  rw [List.mem_singleton.mp hid']
  exact of_decide_eq_true (List.mem_filter.mp hd').2

theorem nodup_putDocs {docs : List (VectorDocument F)} (h : (docs.map VectorDocument.id).Nodup) :
    ∀ new : List (VectorDocument F), ((new.foldl putDoc docs).map VectorDocument.id).Nodup := by
  intro new
  induction new generalizing docs with
  | nil => exact h
  | cons d new ih => exact ih (nodup_putDoc h d)

variable [Field F] [LinearOrder F]

/-- The collection is there before the points come. -/
theorem ensureCollection_spec (hQ : Q.Documented E) (server : σ)
    (hname : Q.validName (collection tenantId) = true) :
    Q.points (QdrantVectorStore.ensureCollection Q server tenantId) (collection tenantId) =
      some ((Q.points server (collection tenantId)).getD []) := by
  unfold QdrantVectorStore.ensureCollection
  cases hfind : Q.points server (collection tenantId) with
  | none =>
    obtain ⟨ready, hcreate, hready⟩ := hQ.create server _ hfind hname
    rw [hcreate, Option.getD_some, hready]
    rfl
  | some points =>
    have hthere := hQ.exists_already server (collection tenantId) (by rw [hfind]; simp)
    rw [hthere, Option.getD_none, hfind]
    rfl

/-- The points after an index. -/
theorem index_points (hQ : Q.Documented E) {new : List (VectorDocument F × F)}
    (hname : Q.validName (collection tenantId) = true)
    (hvectors : ∀ d ∈ new, d.1.embedding.length = embedDim) :
    ∃ stored, Q.points ((StoreCall.index new).run Q E tenantId s).server (collection tenantId) =
      some stored ∧ stored.Perm ((new.map fun d => QdrantVectorStore.point E d.1).foldl putPoint
        (s.points Q tenantId)) := by
  have hlength : ∀ p ∈ (new.map Prod.fst).map (QdrantVectorStore.point E),
      p.vector.length = embedDim := by
    intro p hp
    obtain ⟨d, hd, rfl⟩ := List.mem_map.mp hp
    obtain ⟨pair, hpair, rfl⟩ := List.mem_map.mp hd
    exact hvectors pair hpair
  obtain ⟨t, stored, hupsert, hstored, hperm⟩ :=
    hQ.upsert _ _ _ _ (ensureCollection_spec hQ s.server hname) hlength
  refine ⟨stored, ?_, ?_⟩
  · show Q.points (QdrantVectorStore.index E Q s.server tenantId (new.map Prod.fst)).2 _ = _
    unfold QdrantVectorStore.index
    simp only [hupsert]
    exact hstored
  · rwa [List.map_map] at hperm

theorem points_index (hQ : Q.Documented E) {new : List (VectorDocument F × F)}
    (hname : Q.validName (collection tenantId) = true)
    (hvectors : ∀ d ∈ new, d.1.embedding.length = embedDim) :
    (((StoreCall.index new).run Q E tenantId s).points Q tenantId).Perm
      ((new.map fun d => QdrantVectorStore.point E d.1).foldl putPoint (s.points Q tenantId)) := by
  obtain ⟨stored, hstored, hperm⟩ := index_points (s := s) hQ hname hvectors
  unfold Stores.points at hperm ⊢
  rwa [hstored, Option.getD_some]

theorem agree_index (hQ : Q.Documented E) (h : Agree Q E tenantId s)
    {new : List (VectorDocument F × F)} (hkeeps : Keeps Q E tenantId s (.index new)) :
    Agree Q E tenantId ((StoreCall.index new).run Q E tenantId s) := by
  obtain ⟨docs, hholds, hnodup⟩ := h
  obtain ⟨⟨hname, hvectors, hrows⟩, hfits⟩ := hkeeps
  obtain ⟨kept, hkept, hnew⟩ := hholds.index hrows hfits
  refine ⟨(new.map Prod.fst).foldl putDoc docs, ?_, nodup_putDocs hnodup _⟩
  have hown : ((StoreCall.index new).run Q E tenantId s).ownRows tenantId =
      SQLiteVectorStore.ownRows kept tenantId := by
    show SQLiteVectorStore.ownRows (SQLiteVectorStore.index s.rows tenantId new).2 tenantId = _
    unfold SQLiteVectorStore.index
    rw [hkept]
  rw [hown]
  exact ⟨(points_index hQ hname hvectors).trans hnew.points, hnew.rows⟩

omit [Field F] [LinearOrder F] in
theorem delete_spec {ids : List Str} (hids : Deletable E tenantId ids) :
    (SQLiteVectorStore.delete E s.rows tenantId ids).2 = s.rows.filter fun r =>
    decide (¬ (r.tenantId = tenantId ∧ r.id ∈ ids)) := by
  unfold SQLiteVectorStore.delete
  by_cases hnil : ids = []
  · rw [if_pos hnil, hnil]
    simp
  · rw [if_neg hnil, if_neg (Nat.not_lt.mpr hids.count), if_neg fun h => ?_]
    obtain ⟨text, htext, hnone⟩ := h
    exact hids.texts text htext hnone

/-- The points after a delete. -/
theorem points_delete (hQ : Q.Documented E) (ids : List Str) :
    (((StoreCall.delete ids).run Q E tenantId s).points Q tenantId).Perm
    ((s.points Q tenantId).filter
      fun p => decide (p.id ∉ ids.map fun id => QdrantVectorStore.pointId E id 0)) := by
  show ((Q.points (QdrantVectorStore.delete E Q s.server tenantId ids).2 _).getD []).Perm _
  unfold QdrantVectorStore.delete Stores.points
  by_cases hnil : ids = []
  · rw [if_pos hnil, hnil]
    simp
  · rw [if_neg hnil]
    cases hfind : Q.points s.server (collection tenantId) with
    | none =>
      simp [hQ.not_found _ _ _ hfind, hfind]
    | some points =>
      obtain ⟨t, left, hdelete, hleft, hperm⟩ :=
        hQ.delete _ _ _ (ids.map fun id => QdrantVectorStore.pointId E id 0) hfind
      simp only [hdelete, hleft, Option.getD_some]
      exact hperm

/-- **A delete**: what is listed goes from both stores, and nothing else. -/
theorem agree_delete (hQ : Q.Documented E) (h : Agree Q E tenantId s) {ids : List Str}
    (hkeeps : Keeps Q E tenantId s (.delete ids)) :
    Agree Q E tenantId ((StoreCall.delete ids).run Q E tenantId s) ∧
      Removed Q E tenantId ((StoreCall.delete ids).run Q E tenantId s) ids := by
  obtain ⟨docs, hholds, hnodup⟩ := h
  obtain ⟨hids, hfits⟩ := hkeeps
  have hpoint : ∀ p ∈ s.points Q tenantId,
    decide (p.id ∉ ids.map fun id => QdrantVectorStore.pointId E id 0) =
      decide (p.docId E ∉ ids) := by
    refine fun p hp => decide_eq_decide.mpr (not_congr ?_)
    rw [List.mem_map]
    constructor
    · rintro ⟨id, hid, heq⟩
      rw [(hfits id hid p hp).mp heq.symm]
      exact hid
    · intro hmem
      exact ⟨_, hmem, ((hfits _ hmem p hp).mpr rfl).symm⟩
  have hown : ((StoreCall.delete ids).run Q E tenantId s).ownRows tenantId =
      (s.ownRows tenantId).filter fun r => decide (r.id ∉ ids) := by
    show SQLiteVectorStore.ownRows (SQLiteVectorStore.delete E s.rows tenantId ids).2 tenantId = _
    rw [delete_spec hids]
    unfold Stores.ownRows SQLiteVectorStore.ownRows
    rw [List.filter_filter, List.filter_filter]
    refine List.filter_congr fun r _ => ?_
    by_cases hr : r.tenantId = tenantId <;> simp [hr]
  have hkept := hholds.filter _ (fun id => decide (id ∉ ids)) hpoint
  have hperm := @points_delete F σ Q E tenantId s _ _ hQ ids
  refine ⟨⟨_, ⟨hperm.trans hkept.points, ?_⟩, hnodup.sublist (List.filter_sublist.map _)⟩,
    fun p hp => ?_, fun r hr => ?_⟩
  · rw [hown]
    exact hkept.rows
  · obtain ⟨hmem, hkeep⟩ := List.mem_filter.mp (hperm.mem_iff.mp hp)
    rw [hpoint p hmem] at hkeep
    exact of_decide_eq_true hkeep
  · rw [hown] at hr
    exact of_decide_eq_true (List.mem_filter.mp hr).2

theorem agree_step (hQ : Q.Documented E) (h : Agree Q E tenantId s) {call : StoreCall F}
    (hkeeps : Keeps Q E tenantId s call) : Agree Q E tenantId (call.run Q E tenantId s) := by
  cases call with
  | index docs => exact agree_index hQ h hkeeps
  | update docs => exact agree_index hQ h hkeeps
  | delete ids => exact (agree_delete hQ h hkeeps).1

end

/-! ## One search -/

section

variable {F σ : Type} [Field F] [LinearOrder F] {Q : Qdrant F σ} {E : Env F} {tenantId : Str}
  {s : Stores F σ}

/-- What a search reads of a document: its id, its text, and its embedding. -/
abbrev Entry (F : Type) := Str × Str × List F

def VectorDocument.entry (d : VectorDocument F) : Entry F := (d.id, d.text, d.embedding)

def Row.entry (r : Row F) : Entry F := (r.id, r.text, r.embedding)

/-- What is compared of a hit. -/
def Entry.answer (e : Entry F) : Str × Str := (e.1, e.2.1)

/-- The score of an entry. -/
def Entry.score (E : Env F) (query : List F) (e : Entry F) : F := cosine E query e.2.2

omit [Field F] [LinearOrder F] in
theorem entries_eq {rows : List (Row F)} {docs : List (VectorDocument F)}
    (h : List.Forall₂ RowOf rows docs) : rows.map Row.entry = docs.map VectorDocument.entry := by
  induction h with
  | nil => rfl
  | @cons r d _ _ hrd _ ih =>
    have hentry : r.entry = d.entry := by
      unfold Row.entry VectorDocument.entry
      rw [hrd.id, hrd.text, hrd.embedding]
    rw [List.map_cons, List.map_cons, hentry, ih]

/-- What Qdrant answers: the first of all documents. -/
theorem qdrant_answer (hQ : Q.Documented E) {docs : List (VectorDocument F)}
    {points : List (Point F)}
    (query : List F) (limit : Int) (hpoints : points.Perm (docs.map (QdrantVectorStore.point E)))
    (hsome : Q.points s.server (collection tenantId) = some points)
      (hquery : query.length = embedDim)
    (hlimit : 1 ≤ limit) (hdistinct : (points.map fun p => cosine E query p.vector).Nodup) : ∃ hits,
      QdrantVectorStore.search E Q s.server tenantId query limit = .ok hits ∧
      hits.map (fun h => (h.id, h.text)) =
        ((ranked (Entry.score E query) (docs.map VectorDocument.entry)).take limit.toNat).map
          Entry.answer := by
  obtain ⟨order, horder, hanswer⟩ := hQ.query _ _ points query limit hsome hquery hlimit
  -- where no two scores are the same, the order of the points does not matter
  have hranked : ranked (fun p => cosine E query p.vector) order =
      ranked (fun p => cosine E query p.vector) (docs.map (QdrantVectorStore.point E)) := by
    rw [ranked_eq_of_perm hdistinct horder, ranked_eq_of_perm hdistinct hpoints.symm]
  refine ⟨_, by unfold QdrantVectorStore.search; rw [hanswer], ?_⟩
  rw [hranked, ← ranked_map VectorDocument.entry, ← ranked_map (QdrantVectorStore.point E),
    ← List.map_take, ← List.map_take, List.map_map, List.map_map, List.map_map, List.map_map]
  rfl

/-- What SQLite answers: the first of the newest rows. -/
theorem sqlite_answer (query : List F) (limit : Int) (hlimit : 1 ≤ limit)
    (hbound : SQLiteVectorStore.window limit < 2 ^ 63)
    (htenant : (encode tenantId).isSome = true) : ∃ hits,
      SQLiteVectorStore.search E s.rows tenantId query limit = .ok hits ∧
      hits.map (fun h => (h.id, h.text)) = ((ranked (Entry.score E query)
        (((SQLiteVectorStore.newestFirst s.rows tenantId).take (SQLiteVectorStore.window limit)).map
          Row.entry)).take limit.toNat).map Entry.answer := by
  obtain ⟨bytes, hbytes⟩ := Option.isSome_iff_exists.mp htenant
  refine ⟨SQLiteVectorStore.upTo limit
    (ranked VectorHit.score (((SQLiteVectorStore.newestFirst s.rows tenantId).take
    (SQLiteVectorStore.window limit)).map (SQLiteVectorStore.hit E query))), ?_, ?_⟩
  · unfold SQLiteVectorStore.search
    rw [hbytes]
    exact if_neg (Nat.not_le.mpr hbound)
  · unfold SQLiteVectorStore.upTo
    rw [if_pos (by omega), ← ranked_map Row.entry, ← ranked_map (SQLiteVectorStore.hit E query),
      ← List.map_take, ← List.map_take, List.map_map, List.map_map]
    rfl

/-- Two lists with one image, where the function is injective on them. -/
theorem eq_of_map_eq {α β : Type} {f : α → β} : ∀ {l l' : List α},
    (∀ x ∈ l, ∀ y ∈ l', f x = f y → x = y) → l.map f = l'.map f → l = l'
  | [], [], _, _ => rfl
  | [], _ :: _, _, h => by cases h
  | _ :: _, [], _, h => by cases h
  | x :: l, y :: l', hinj, h => by
    rw [List.map_cons, List.map_cons] at h
    obtain ⟨hxy, htail⟩ := List.cons.inj h
    rw [hinj x List.mem_cons_self y List.mem_cons_self hxy,
      eq_of_map_eq
      (fun x hx y hy => hinj x (List.mem_cons_of_mem _ hx) y (List.mem_cons_of_mem _ hy)) htail]

/-- **Two searches**: they answer alike exactly where what SQLite leaves out does not score. -/
theorem sameAnswer_iff (hQ : Q.Documented E) (h : Agree Q E tenantId s) {query : List F}
    {limit : Int}
    (hanswerable : Answerable Q tenantId s query limit)
    (hdistinct : Distinct Q E tenantId s query) :
    SameAnswer Q E tenantId s query limit ↔ Covered E tenantId s query limit := by
  obtain ⟨docs, hholds, hnodup⟩ := h
  obtain ⟨points, hsome⟩ := Option.isSome_iff_exists.mp hanswerable.exists_collection
  have hpoints : s.points Q tenantId = points := by
    unfold Stores.points
    rw [hsome, Option.getD_some]
  obtain ⟨hits, hsearch, hanswer⟩ := qdrant_answer hQ query limit (hpoints ▸ hholds.points) hsome
    hanswerable.length_query hanswerable.one_le (hpoints ▸ hdistinct.1)
  obtain ⟨hits', hsearch', hanswer'⟩ :=
    sqlite_answer (s := s) query limit hanswerable.one_le hanswerable.window_lt hanswerable.encodes
  -- the newest rows and the others, as entries
  have hsame : SameAnswer Q E tenantId s query limit ↔ hits.map (fun h => (h.id, h.text)) =
      hits'.map fun h => (h.id, h.text) := by
    refine ⟨?_, fun h => ⟨hits, hits', hsearch, hsearch', h⟩⟩
    rintro ⟨_, _, h, h', heq⟩
    rw [hsearch] at h
    rw [hsearch'] at h'
    obtain rfl := Except.ok.inj h
    obtain rfl := Except.ok.inj h'
    exact heq
  rw [hsame, hanswer, hanswer', ← entries_eq hholds.rows]
  generalize hwindow : SQLiteVectorStore.window limit = k
  have hsplit : ((SQLiteVectorStore.newestFirst s.rows tenantId).take k).map Row.entry ++
      ((SQLiteVectorStore.newestFirst s.rows tenantId).drop k).map Row.entry =
        (SQLiteVectorStore.newestFirst s.rows tenantId).map Row.entry := by
    rw [← List.map_append, List.take_append_drop]
  have hperm : ((SQLiteVectorStore.newestFirst s.rows tenantId).map Row.entry).Perm
      ((s.ownRows tenantId).map Row.entry) :=
    ((ranked_perm Row.ts _).trans (List.reverse_perm _)).map _
  have hscores : (((s.ownRows tenantId).map Row.entry).map (Entry.score E query)).Nodup := by
    rw [List.map_map]
    exact hdistinct.2
  have hscores' : ((((SQLiteVectorStore.newestFirst s.rows tenantId).take k).map Row.entry ++
      ((SQLiteVectorStore.newestFirst s.rows tenantId).drop k).map Row.entry).map
      (Entry.score E query)).Nodup := by
    rw [hsplit]
    exact (hperm.map _).nodup_iff.mpr hscores
  have hids : (((s.ownRows tenantId).map Row.entry).map Prod.fst).Nodup := by
    rw [entries_eq hholds.rows, List.map_map]
    exact hnodup
  rw [← ranked_eq_of_perm hscores hperm, ← hsplit]
  have htop := take_ranked_append hscores' (k := limit.toNat)
  constructor
  · intro heq r hr
    -- an answer is known by its id
    have hentries := eq_of_map_eq (fun x hx y hy hxy => ?_) heq
    · rw [hwindow] at hr
      have hfew := htop.mp hentries.symm r.entry (List.mem_map_of_mem hr)
      rw [hsplit, (hperm.filter _).length_eq, List.filter_map, List.length_map] at hfew
      exact hfew
    · have hmem : ∀ e, e ∈ ((SQLiteVectorStore.newestFirst s.rows tenantId).take k).map Row.entry ++
          ((SQLiteVectorStore.newestFirst s.rows tenantId).drop k).map Row.entry →
          e ∈ (s.ownRows tenantId).map Row.entry := by
        intro e he
        rw [hsplit] at he
        exact hperm.mem_iff.mp he
      have hx' := hmem x (mem_ranked.mp (List.mem_of_mem_take hx))
      have hy' := hmem y (List.mem_append_left _ (mem_ranked.mp (List.mem_of_mem_take hy)))
      exact List.inj_on_of_nodup_map hids hx' hy' (Prod.mk.inj hxy).1
  · intro hcovered
    refine congrArg (List.map Entry.answer) (htop.mpr fun e he => ?_).symm
    obtain ⟨r, hr, rfl⟩ := List.mem_map.mp he
    rw [hsplit, (hperm.filter _).length_eq, List.filter_map, List.length_map]
    exact hcovered r (by rw [hwindow]; exact hr)

/-! ## Runs -/

/-- **The stores of every run** whose calls keep to one document for each id, with any server that
does what is documented: the searches answer alike exactly where what SQLite leaves out does not
score, and what is deleted is gone from both. -/
theorem run_interchangeable (hQ : Q.Documented E) {es : List (StoreCall F)}
    (hrun : Machine.run (storesStep Q E tenantId) (Stores.empty Q) es = some s)
    (hkeeps : Machine.Along (storesStep Q E tenantId) (Keeps Q E tenantId) (Stores.empty Q) es) :
    (∀ query limit, Answerable Q tenantId s query limit → Distinct Q E tenantId s query →
      (SameAnswer Q E tenantId s query limit ↔ Covered E tenantId s query limit)) ∧
    ∀ ids, Keeps Q E tenantId s (.delete ids) →
      Removed Q E tenantId ((StoreCall.delete ids).run Q E tenantId s) ids := by
  have hempty : Agree Q E tenantId (Stores.empty Q) := by
    refine ⟨[], ?_, List.nodup_nil⟩
    unfold Stores.points
    rw [show Q.points (Stores.empty Q).server (collection tenantId) = none from hQ.empty _]
    exact holds_empty
  have hagree : Agree Q E tenantId s := by
    refine Machine.run_invariant_along (I := Agree Q E tenantId) (Q := Keeps Q E tenantId) ?_
      hempty hkeeps hrun
    intro call _ t u ht hcall hstep
    obtain rfl := Option.some.inj hstep
    exact agree_step hQ ht hcall
  exact ⟨fun query limit => sameAnswer_iff hQ hagree, fun ids hids =>
    (agree_delete hQ hagree hids).2⟩

end

/-! ## A server in memory -/

section

variable {F : Type} [Field F] [LinearOrder F] (E : Env F)

/-- A server that keeps its collections by their names, and takes every name. -/
def inMemory : Qdrant F (Str → Option (List (Point F))) where
  empty _ := none
  points s name := s name
  validName _ := true
  createCollection s name := if s name = none then some (Function.update s name (some [])) else none
  upsert s name new := (s name).bind fun points =>
    if ∀ p ∈ new, p.vector.length = embedDim then
      some (Function.update s name (some (new.foldl putPoint points)))
    else none
  queryPoints s name query limit := (s name).bind fun points =>
    if query.length = embedDim ∧ 1 ≤ limit then
      some (((ranked (fun p => cosine E query p.vector) points).take limit.toNat).map
        (Point.scored E query))
    else none
  delete s name ids := (s name).map fun points =>
    Function.update s name (some (points.filter fun p => p.id ∉ ids))

theorem inMemory_documented : (inMemory E).Documented E where
  empty _ := rfl
  create s name hnone _ := ⟨_, if_pos hnone, Function.update_self name _ s⟩
  exists_already s name hsome := if_neg hsome
  upsert s name points new hpoints hlength := by
    refine ⟨Function.update s name (some (new.foldl putPoint points)), _, ?_,
      Function.update_self name _ s, .refl _⟩
    show (s name).bind _ = _
    rw [show s name = some points from hpoints, Option.bind_some]
    exact if_pos hlength
  query s name points query limit hpoints hquery hlimit := by
    refine ⟨points, .refl _, ?_⟩
    show (s name).bind _ = _
    rw [show s name = some points from hpoints, Option.bind_some]
    exact if_pos ⟨hquery, hlimit⟩
  delete s name points ids hpoints := by
    refine ⟨Function.update s name (some (points.filter fun p => p.id ∉ ids)), _, ?_,
      Function.update_self name _ s, .refl _⟩
    show (s name).map _ = _
    rw [show s name = some points from hpoints]
    rfl
  not_found s name ids hnone := by
    show (s name).map _ = _
    rw [show s name = none from hnone]
    rfl

end

/-! ## Two chunks of one document -/

/-- An environment for the examples, with vectors of length one: `x ** 0.5` of 0 and 1. -/
def unitEnv : Env ℚ := ⟨id, id, fun _ => [], 32766⟩

def unitQdrant : Qdrant ℚ (Str → Option (List (Point ℚ))) := inMemory unitEnv

theorem unitQdrant_documented : unitQdrant.Documented unitEnv := inMemory_documented unitEnv

def firstAxis : List ℚ := 1 :: List.replicate 767 0

def secondAxis : List ℚ := 0 :: 1 :: List.replicate 766 0

theorem length_firstAxis : firstAxis.length = embedDim := by
  show (1 :: List.replicate 767 (0 : ℚ)).length = 768
  rw [List.length_cons, List.length_replicate]

theorem length_secondAxis : secondAxis.length = embedDim := by
  show (0 :: 1 :: List.replicate 766 (0 : ℚ)).length = 768
  rw [List.length_cons, List.length_cons, List.length_replicate]

/-- A chunk of the document `a`. -/
def chunkA (chunk : Int) (embedding : List ℚ) : VectorDocument ℚ :=
  ⟨lit "a", lit "x", [], chunk, [], embedding⟩

def tenantT : Str := lit "t"

/-- A document, the embedding of which is the second axis. -/
def documentB : VectorDocument ℚ := ⟨lit "b", lit "y", [], 0, [], secondAxis⟩

/-- Two documents come, and a third is deleted. -/
def fewCalls : List (StoreCall ℚ) :=
  [.index [(chunkA 0 firstAxis, 0), (documentB, 1)], .delete [lit "c"]]

theorem run_interchangeable_few : ∃ s,
    Machine.run (storesStep unitQdrant unitEnv tenantT) (Stores.empty unitQdrant)
    fewCalls = some s ∧
    (∀ query limit, Answerable unitQdrant tenantT s query limit →
      Distinct unitQdrant unitEnv tenantT s query →
      (SameAnswer unitQdrant unitEnv tenantT s query limit ↔ Covered unitEnv tenantT s query limit))
        ∧
    ∀ ids, Keeps unitQdrant unitEnv tenantT s (.delete ids) →
      Removed unitQdrant unitEnv tenantT
      ((StoreCall.delete ids).run unitQdrant unitEnv tenantT s) ids := by
  have hvectors : ∀ d ∈ [(chunkA 0 firstAxis, (0 : ℚ)), (documentB, 1)], d.1.embedding.length =
      embedDim := by
    intro d hd
    rcases List.mem_pair.mp hd with rfl | rfl
    · exact length_firstAxis
    · exact length_secondAxis
  have hrows : ∀ d ∈ [(chunkA 0 firstAxis, (0 : ℚ)), (documentB, 1)],
      ∃ row, SQLiteVectorStore.rowOf tenantT d.1 d.2 = .ok row := by
    intro d hd
    rcases List.mem_pair.mp hd with rfl | rfl
    · exact ⟨⟨lit "a", tenantT, lit "x", [], 0, firstAxis, .dict [], 0⟩, rfl⟩
    · exact ⟨⟨lit "b", tenantT, lit "y", [], 0, secondAxis, .dict [], 1⟩, rfl⟩
  have hkeeps : Machine.Along (storesStep unitQdrant unitEnv tenantT)
    (Keeps unitQdrant unitEnv tenantT) (Stores.empty unitQdrant) fewCalls := by
    refine ⟨⟨⟨rfl, hvectors, hrows⟩, fun p hp => (by cases hp), fun p hp => ?_, trivial⟩,
      fun t ht => ⟨⟨⟨by decide, by decide⟩, fun id hid p hp => ?_⟩, fun _ _ => trivial⟩⟩
    · obtain rfl := List.mem_singleton.mp hp
      decide
    · obtain rfl := List.mem_singleton.mp hid
      obtain rfl := Option.some.inj ht
      rw [(points_index unitQdrant_documented rfl hvectors).mem_iff] at hp
      rcases List.mem_pair.mp hp with rfl | rfl
      · decide
      · decide
  exact ⟨_, rfl, run_interchangeable unitQdrant_documented rfl hkeeps⟩

/-- Two chunks of one document, one written after the other. -/
def chunksA : List (VectorDocument ℚ × ℚ) := [(chunkA 0 firstAxis, 0), (chunkA 1 secondAxis, 1)]

abbrev twoChunks : Stores ℚ (Str → Option (List (Point ℚ))) :=
  (StoreCall.index chunksA).run unitQdrant unitEnv tenantT (Stores.empty unitQdrant)

theorem twoChunks_rows : ∃ r, SQLiteVectorStore.ownRows twoChunks.rows tenantT = [r] := ⟨_, rfl⟩

theorem length_chunksA : ∀ d ∈ chunksA, d.1.embedding.length = embedDim := by
  intro d hd
  rcases List.mem_pair.mp hd with rfl | rfl
  · exact length_firstAxis
  · exact length_secondAxis

theorem twoChunks_points : ∃ points,
    unitQdrant.points twoChunks.server (collection tenantT) = some points ∧
      points.Perm
      ([chunkA 0 firstAxis, chunkA 1 secondAxis].map (QdrantVectorStore.point unitEnv)) := by
  obtain ⟨points, hpoints, hperm⟩ := @index_points ℚ _ unitQdrant unitEnv tenantT
    (Stores.empty unitQdrant) _ _ unitQdrant_documented chunksA rfl length_chunksA
  exact ⟨points, hpoints, hperm⟩

/-- Qdrant finds both chunks, SQLite the last one; and of the two Qdrant deletes the first. -/
theorem not_interchangeable : unitQdrant.Documented unitEnv ∧
    Machine.run (storesStep unitQdrant unitEnv tenantT) (Stores.empty unitQdrant) [.index chunksA] =
      some twoChunks ∧
    Answerable unitQdrant tenantT twoChunks firstAxis 5 ∧
      Distinct unitQdrant unitEnv tenantT twoChunks firstAxis ∧
      ¬ SameAnswer unitQdrant unitEnv tenantT twoChunks firstAxis 5 ∧
      ¬ Removed unitQdrant unitEnv tenantT
        ((StoreCall.delete [lit "a"]).run unitQdrant unitEnv tenantT twoChunks) [lit "a"] := by
  have hQ := unitQdrant_documented
  obtain ⟨r, hr⟩ := twoChunks_rows
  obtain ⟨points, hpoints, hperm⟩ := twoChunks_points
  have hstored : twoChunks.points unitQdrant tenantT = points := by
    unfold Stores.points
    rw [hpoints, Option.getD_some]
  have hdistinct : (points.map fun p => cosine unitEnv firstAxis p.vector).Nodup := by
    rw [(hperm.map _).nodup_iff]
    decide +kernel
  refine ⟨hQ, rfl, ⟨?_, length_firstAxis, by decide, by decide, by decide⟩, ⟨?_, ?_⟩, ?_, ?_⟩
  · rw [hpoints]
    rfl
  · rwa [hstored]
  · show ((SQLiteVectorStore.ownRows twoChunks.rows tenantT).map _).Nodup
    rw [hr]
    exact List.nodup_singleton _
  · rintro ⟨hits, hits', h, h', heq⟩
    obtain ⟨answers, hanswers, hentries⟩ :=
      qdrant_answer hQ firstAxis 5 hperm hpoints length_firstAxis (by decide) hdistinct
    obtain ⟨answers', hanswers', hentries'⟩ :=
      sqlite_answer (s := twoChunks) firstAxis 5 (by decide)
      (by decide) (show (encode tenantT).isSome = true by decide)
    obtain rfl := Except.ok.inj (h.symm.trans hanswers)
    obtain rfl := Except.ok.inj (h'.symm.trans hanswers')
    rw [hentries, hentries'] at heq
    have hlength := congrArg List.length heq
    have hnewest : (SQLiteVectorStore.newestFirst twoChunks.rows tenantT).length = 1 := by
      unfold SQLiteVectorStore.newestFirst
      rw [(ranked_perm _ _).length_eq, List.length_reverse, hr]
      rfl
    simp only [List.length_map, List.length_take, (ranked_perm _ _).length_eq, hnewest] at hlength
    have hwindow : SQLiteVectorStore.window 5 = 50 := rfl
    rw [hwindow] at hlength
    simp at hlength
  · rintro ⟨hleft, -⟩
    have hkept : QdrantVectorStore.point unitEnv (chunkA 1 secondAxis) ∈
        ((StoreCall.delete [lit "a"]).run unitQdrant unitEnv tenantT twoChunks).points unitQdrant
        tenantT := by
      rw [(points_delete hQ [lit "a"]).mem_iff, hstored, List.mem_filter, hperm.mem_iff]
      refine ⟨List.mem_cons_of_mem _ List.mem_cons_self, ?_⟩
      show decide (QdrantVectorStore.pointId unitEnv (lit "a") 1 ∉
        [QdrantVectorStore.pointId unitEnv (lit "a") 0]) = true
      decide
    refine hleft _ hkept ?_
    rw [docId_point]
    exact List.mem_cons_self

end Retrieval
