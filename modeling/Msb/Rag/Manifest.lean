import Msb.Infra.JsonJoined
import Msb.Rag.SnapshotMachine
import Msb.Rag.SourceTree

/-!
# The normal form of a manifest, and the chunks of a text

`_normalize_manifest` and `manifest_sha256` of `api/rag_index_state.py`, and `_split_vault_text` of
`api/rag.py`. The hash of a manifest is that of its normal form as ASCII JSON, where a pair of
surrogates is written like the character it stands for.

* `normalizeManifest_eq_ok` — which entries are accepted, and what they are normalized to
* `normalizeManifest_of_perm` — the order of the entries does not matter
* `manifestSha256_eq_iff` — when two manifests have one hash
* `rebuild_splitVaultText` — the chunks of a text give it back
* `manifest_law` — all of it
-/

namespace Rag

open Py Ledger

/-! ## Acceptance -/

/-- A relative path with slashes, without empty parts and dots. -/
structure SafePath (s : Str) : Prop where
  nonempty : s ≠ []
  noBackslash : (92 : CodePoint) ∉ s
  noNul : (0 : CodePoint) ∉ s
  parts : ∀ part ∈ s.splitOn 47, part ≠ [] ∧ part ≠ lit "." ∧ part ≠ lit ".."

/-- A SHA-256 in lower-case hexadecimal. -/
structure HashHex (s : Str) : Prop where
  length : s.length = 64
  digits : ∀ c ∈ s, (48 ≤ c.val ∧ c.val ≤ 57) ∨ (97 ≤ c.val ∧ c.val ≤ 102)

/-- The fields of an entry have the types and forms they should have. -/
structure IsEntry (raw : RawEntry) (e : ManifestEntry) : Prop where
  source : raw.source = .str e.source
  safe : SafePath e.source
  chunk : raw.chunk = .int e.chunk
  content : raw.contentSha256 = .str e.contentSha256
  contentHash : HashHex e.contentSha256
  whole : raw.sourceSha256 = .str e.sourceSha256
  wholeHash : HashHex e.sourceSha256

/-- Unique keys, one hash for each source, and chunks that are numbered from zero. -/
structure WellFormed (entries : List ManifestEntry) : Prop where
  unique : (entries.map ManifestEntry.key).Nodup
  oneHash : ∀ a ∈ entries, ∀ b ∈ entries, a.source = b.source → a.sourceSha256 = b.sourceSha256
  numbered : ∀ a ∈ entries, ∀ k, (∃ b ∈ entries, b.source = a.source ∧ b.chunk = k) ↔
    k < (entriesOf entries a.source).length

section

variable {repr : PyVal → Str} {raw raw' : List RawEntry} {r : RawEntry} {e : ManifestEntry}
  {entries entries' : List ManifestEntry}

variable {v : PyVal} {out : List ManifestEntry}

theorem safeSource_eq_some {s : Str} : safeSource v = some s ↔ v = .str s ∧ SafePath s := by
  have hsafe : ∀ s : Str, SafePath s ↔ ¬ (s = [] ∨ (92 : CodePoint) ∈ s ∨ (0 : CodePoint) ∈ s) ∧
      ¬ ((s.splitOn 47).any fun part => part = [] ∨ part = lit "." ∨ part = lit "..") = true := by
    intro s
    simp only [List.any_eq_true, decide_eq_true_eq, not_or, not_exists, not_and]
    exact ⟨fun h => ⟨⟨h.nonempty, h.noBackslash, h.noNul⟩, h.parts⟩, fun h =>
      ⟨h.1.1, h.1.2.1, h.1.2.2, h.2⟩⟩
  cases v with
  | str t =>
    rw [PyVal.str.injEq]
    simp only [safeSource]
    by_cases hbad : t = [] ∨ (92 : CodePoint) ∈ t ∨ (0 : CodePoint) ∈ t
    · rw [if_pos hbad]
      exact iff_of_false (by simp) fun h => ((hsafe s).mp h.2).1 (h.1 ▸ hbad)
    rw [if_neg hbad]
    by_cases hparts : ((t.splitOn 47).any fun part => part = [] ∨ part = lit "." ∨
      part = lit "..") = true
    · rw [if_pos hparts]
      exact iff_of_false (by simp) fun h => ((hsafe s).mp h.2).2 (h.1 ▸ hparts)
    · rw [if_neg hparts, Option.some.injEq]
      exact ⟨fun heq => ⟨heq, heq ▸ (hsafe t).mpr ⟨hbad, hparts⟩⟩, And.left⟩
  | _ => simp [safeSource]

theorem chunkNumber_eq_some {n : ℕ} : chunkNumber v = some n ↔ v = .int n := by
  cases v with
  | int i =>
    simp only [chunkNumber, PyVal.int.injEq]
    split
    · rw [Option.some.injEq]
      omega
    · exact iff_of_false (by simp) (by omega)
  | _ => simp [chunkNumber]

theorem hashText_eq_some {s : Str} : hashText v = some s ↔ v = .str s ∧ HashHex s := by
  cases v with
  | str t =>
    simp only [hashText, PyVal.str.injEq, List.all_eq_true, decide_eq_true_eq]
    split
    · rename_i h
      rw [Option.some.injEq]
      exact ⟨fun heq => ⟨heq, heq ▸ ⟨h.1, h.2⟩⟩, And.left⟩
    · rename_i h
      exact iff_of_false (by simp) fun h' => h ⟨h'.1 ▸ h'.2.length, h'.1 ▸ h'.2.digits⟩
  | _ => simp [hashText]

theorem require_eq_ok {α : Type} {value : Option α} {message : Str} {a : α} :
    require value message = .ok a ↔ value = some a := by
  unfold require
  cases value with
  | none => simp
  | some b => simp

theorem normalizeEntry_eq_ok : normalizeEntry repr r = .ok e ↔ IsEntry r e := by
  unfold normalizeEntry
  simp only [bind_eq_ok, require_eq_ok, safeSource_eq_some, chunkNumber_eq_some, hashText_eq_some,
    pure, Except.pure, Except.ok.injEq]
  constructor
  · rintro ⟨_, ⟨hsource, hsafe⟩, _, hchunk, _, ⟨hcontent, hhash⟩, _, ⟨hwhole, hhash'⟩, rfl⟩
    exact ⟨hsource, hsafe, hchunk, hcontent, hhash, hwhole, hhash'⟩
  · rintro ⟨hsource, hsafe, hchunk, hcontent, hhash, hwhole, hhash'⟩
    exact ⟨_, ⟨hsource, hsafe⟩, _, hchunk, _, ⟨hcontent, hhash⟩, _, ⟨hwhole, hhash'⟩, rfl⟩

theorem normalizeFrom_eq_ok {seen : List Key} : normalizeFrom repr seen raw = .ok entries ↔
    List.Forall₂ IsEntry raw entries ∧ (entries.map ManifestEntry.key).Nodup ∧ ∀ e ∈ entries,
    e.key ∉ seen := by
  induction raw generalizing seen entries with
  | nil =>
    rw [normalizeFrom, Except.ok.injEq, List.forall₂_nil_left_iff]
    constructor
    · rintro rfl
      exact ⟨rfl, List.nodup_nil, fun e he => (by cases he)⟩
    · exact fun h => h.1.symm
  | cons r raw ih =>
    rw [normalizeFrom]
    simp only [bind_eq_ok, normalizeEntry_eq_ok, raiseIf_eq_ok, ih, exists_unit, pure, Except.pure,
      Except.ok.injEq]
    constructor
    · rintro ⟨e, he, hseen, es, ⟨hall, hnodup, hnew⟩, rfl⟩
      refine ⟨.cons he hall, ?_, fun x hx => ?_⟩
      · rw [List.map_cons, List.nodup_cons]
        refine ⟨fun hmem => ?_, hnodup⟩
        obtain ⟨x, hx, hkey⟩ := List.mem_map.mp hmem
        exact hnew x hx (hkey ▸ List.mem_cons_self)
      · rcases List.mem_cons.mp hx with rfl | hx
        · exact hseen
        · exact fun hmem => hnew x hx (List.mem_cons_of_mem _ hmem)
    · rintro ⟨hall, hnodup, hnew⟩
      cases hall with
      | @cons _ e _ es he hall =>
        rw [List.map_cons, List.nodup_cons] at hnodup
        refine ⟨e, he, hnew e List.mem_cons_self, es, ⟨hall, hnodup.2, fun x hx hmem => ?_⟩, rfl⟩
        rcases List.mem_cons.mp hmem with hkey | hmem
        · exact hnodup.1 (hkey ▸ List.mem_map_of_mem hx)
        · exact hnew x (List.mem_cons_of_mem _ hx) hmem

/-! ## Sorting -/

theorem pairwise_sortEntries (entries : List ManifestEntry) : (sortEntries entries).Pairwise
    fun a b =>
    a.source < b.source ∨ (a.source = b.source ∧ a.chunk ≤ b.chunk) := by
  have hsorted : (sortEntries entries).Pairwise fun a b =>
      decide (a.source < b.source ∨ (a.source = b.source ∧ a.chunk ≤ b.chunk)) = true :=
        List.pairwise_mergeSort
    (fun a b c hab hbc => by
      rw [decide_eq_true_eq] at hab hbc ⊢
      rcases hab with hab | ⟨hab, hab'⟩
      · rcases hbc with hbc | ⟨hbc, -⟩
        · exact .inl (lt_trans hab hbc)
        · exact .inl (hbc ▸ hab)
      · rcases hbc with hbc | ⟨hbc, hbc'⟩
        · exact .inl (hab ▸ hbc)
        · exact .inr ⟨hab.trans hbc, hab'.trans hbc'⟩)
    (fun a b => by
      rw [Bool.or_eq_true, decide_eq_true_eq, decide_eq_true_eq]
      rcases lt_trichotomy a.source b.source with h | h | h
      · exact .inl (.inl h)
      · exact (Nat.le_total a.chunk b.chunk).imp (fun hle => .inr ⟨h, hle⟩) fun hle =>
          .inr ⟨h.symm, hle⟩
      · exact .inr (.inl h))
    entries
  exact hsorted.imp fun h => of_decide_eq_true h

/-- The normal form depends on what the entries are, not on their order. -/
theorem sortEntries_eq_of_perm (hunique : (entries.map ManifestEntry.key).Nodup)
    (hperm : entries.Perm entries') : sortEntries entries = sortEntries entries' := by
  have hmem : ∀ {e}, e ∈ sortEntries entries ↔ e ∈ entries := (List.mergeSort_perm _ _).mem_iff
  have hmem' : ∀ {e}, e ∈ sortEntries entries' ↔ e ∈ entries :=
    fun {e} => (List.mergeSort_perm _ _).mem_iff.trans hperm.symm.mem_iff
  refine List.Perm.eq_of_pairwise ?_ (pairwise_sortEntries _) (pairwise_sortEntries _)
    (((List.mergeSort_perm _ _).trans hperm).trans (List.mergeSort_perm _ _).symm)
  intro a b ha hb hab hba
  -- neither is before the other, so that they have one key
  refine List.inj_on_of_nodup_map hunique (hmem.mp ha) (hmem'.mp hb) ?_
  rcases hab with hab | ⟨hab, hle⟩
  · rcases hba with hba | ⟨hba, -⟩
    · exact absurd hba (lt_asymm hab)
    · exact absurd (hba ▸ hab) (lt_irrefl _)
  · rcases hba with hba | ⟨-, hle'⟩
    · exact absurd (hab ▸ hba) (lt_irrefl _)
    · exact Prod.ext hab (Nat.le_antisymm hle hle')

/-- The chunks of a source, sorted, are the first numbers iff they are the first numbers. -/
theorem chunks_eq_range (hunique : (entries.map ManifestEntry.key).Nodup) (source : Str) :
    ((entriesOf entries source).map ManifestEntry.chunk).mergeSort = List.range
    (entriesOf entries source).length ↔
      ∀ k, (∃ b ∈ entries, b.source = source ∧ b.chunk = k) ↔
      k < (entriesOf entries source).length := by
  have hmem : ∀ k, k ∈ (entriesOf entries source).map ManifestEntry.chunk ↔ ∃ b ∈ entries,
      b.source = source ∧ b.chunk = k := by
    simp [entriesOf, and_assoc]
  have hnodup : ((entriesOf entries source).map ManifestEntry.chunk).Nodup := by
    refine List.Nodup.map_on (fun a ha b hb hchunk => ?_) ((List.Nodup.of_map _ hunique).filter _)
    simp only [entriesOf, List.mem_filter, decide_eq_true_eq] at ha hb
    exact List.inj_on_of_nodup_map hunique ha.1 hb.1 (Prod.ext (ha.2.trans hb.2.symm) hchunk)
  constructor
  · intro h k
    rw [← hmem, ← List.mem_range, ← h, (List.mergeSort_perm _ _).mem_iff]
  · intro h
    have hperm : ((entriesOf entries source).map ManifestEntry.chunk).Perm
        (List.range (entriesOf entries source).length) :=
      (List.perm_ext_iff_of_nodup hnodup List.nodup_range).mpr fun k => by
        rw [hmem, h, List.mem_range]
    have hsorted : (((entriesOf entries source).map ManifestEntry.chunk).mergeSort).Pairwise
        fun a b => decide (a ≤ b) = true :=
      List.pairwise_mergeSort (fun a b c => by simpa using Nat.le_trans)
        (fun a b => by simpa using Nat.le_total a b) _
    exact List.Perm.eq_of_pairwise (fun _ _ _ _ => Nat.le_antisymm)
      (hsorted.imp fun h => of_decide_eq_true h)
      (List.pairwise_lt_range.imp Nat.le_of_lt) ((List.mergeSort_perm _ _).trans hperm)

/-! ## Manifests -/

theorem normalizeManifest_eq_ok : normalizeManifest repr raw = .ok out ↔
    ∃ entries, List.Forall₂ IsEntry raw entries ∧ WellFormed entries ∧
    sortEntries entries = out := by
  unfold normalizeManifest
  simp only [bind_eq_ok, normalizeFrom_eq_ok, raiseIf_eq_ok, exists_unit, pure, Except.pure,
    Except.ok.injEq]
  constructor
  · rintro ⟨entries, ⟨hall, hunique, -⟩, hone, hnumbered, hout⟩
    refine ⟨entries, hall, ⟨hunique, fun a ha b hb hsource => ?_, fun a ha => ?_⟩, hout⟩
    · by_contra hne
      exact hone ⟨a, ha, b, hb, hsource, hne⟩
    · rw [← chunks_eq_range hunique]
      by_contra hne
      exact hnumbered ⟨a, ha, hne⟩
  · rintro ⟨entries, hall, ⟨hunique, hone, hnumbered⟩, hout⟩
    refine ⟨entries, ⟨hall, hunique, fun _ _ => List.not_mem_nil⟩, ?_, ?_, hout⟩
    · rintro ⟨a, ha, b, hb, hsource, hne⟩
      exact hne (hone a ha b hb hsource)
    · rintro ⟨a, ha, hne⟩
      exact hne ((chunks_eq_range hunique _).mpr (hnumbered a ha))

theorem WellFormed.of_perm (h : WellFormed entries) (hperm : entries.Perm entries') :
    WellFormed entries' := by
  have hlength : ∀ source, (entriesOf entries' source).length = (entriesOf entries source).length :=
    fun source => (hperm.symm.filter _).length_eq
  refine ⟨(hperm.map _).nodup_iff.mp h.unique, fun a ha b hb => ?_, fun a ha k => ?_⟩
  · exact h.oneHash a (hperm.mem_iff.mpr ha) b (hperm.mem_iff.mpr hb)
  · rw [hlength, ← h.numbered a (hperm.mem_iff.mpr ha) k]
    simp only [hperm.mem_iff]

/-- The order of the entries does not matter. -/
theorem normalizeManifest_of_perm (hperm : raw.Perm raw')
    (h : normalizeManifest repr raw = .ok out) : normalizeManifest repr raw' = .ok out := by
  obtain ⟨entries, hall, hwell, rfl⟩ := normalizeManifest_eq_ok.mp h
  obtain ⟨entries', hperm', hall'⟩ := List.perm_comp_forall₂ hperm.symm hall
  exact normalizeManifest_eq_ok.mpr ⟨_, hperm', hwell.of_perm hall'.symm,
    (sortEntries_eq_of_perm hwell.unique hall'.symm).symm⟩

theorem IsEntry.unique {r' : RawEntry} (h : IsEntry r e) (h' : IsEntry r' e) : r = r' := by
  cases r with
  | mk source chunk content whole =>
    cases r' with
    | mk source' chunk' content' whole' =>
      obtain ⟨rfl, -, rfl, rfl, -, rfl, -⟩ := h
      obtain ⟨rfl, -, rfl, rfl, -, rfl, -⟩ := h'
      rfl

/-- Manifests with one normal form have the same entries. -/
theorem perm_of_normalizeManifest (h : normalizeManifest repr raw = .ok out)
    (h' : normalizeManifest repr raw' = .ok out) : raw.Perm raw' := by
  obtain ⟨entries, hall, -, hsort⟩ := normalizeManifest_eq_ok.mp h
  obtain ⟨entries', hall', -, hsort'⟩ := normalizeManifest_eq_ok.mp h'
  have hperm : entries.Perm entries' :=
    ((List.mergeSort_perm _ _).symm.trans (.of_eq (hsort.trans hsort'.symm))).trans
      (List.mergeSort_perm _ _)
  obtain ⟨mid, hmid, hmid'⟩ := List.perm_comp_forall₂ hperm hall'.flip
  have heq : raw = mid := List.left_unique_forall₂' (fun _ _ _ h h' => h.unique h') hall hmid.flip
  exact heq ▸ hmid'

/-! ## Hashes -/

/-- The entry with the source as it is read back from JSON. -/
def ManifestEntry.joined (e : ManifestEntry) : ManifestEntry :=
  { e with source := joinSurrogates e.source }

variable {P : Platform}

theorem HashHex.joinSurrogates {s : Str} (h : HashHex s) : Py.joinSurrogates s = s := by
  refine joinSurrogates_of_unpaired (unpaired_of_ascii fun c hc => ?_)
  rcases h.digits c hc with h | h <;> omega

/-- The tree of an entry, with its keys sorted. -/
theorem toJson_dict (e : ManifestEntry) : toJson P.keySort true e.dict =
    .obj [(lit "chunk", .int e.chunk),
    (lit "content_sha256", .str e.contentSha256), (lit "source", .str e.source),
    (lit "source_sha256", .str e.sourceSha256)] := by
  have hsort :
    P.keySort.sort [(.str (lit "source"), .str e.source), (.str (lit "chunk"), .int e.chunk),
      (.str (lit "content_sha256"), .str e.contentSha256),
      (.str (lit "source_sha256"), .str e.sourceSha256)] =
      [(.str (lit "chunk"), .int e.chunk), (.str (lit "content_sha256"), .str e.contentSha256),
        (.str (lit "source"), .str e.source),
        (.str (lit "source_sha256"), .str e.sourceSha256)] := by
    refine sort_eq_of_perm P.keySort ?_ ?_ ?_
    · simp [PyKey.isStr]
    · exact (show List.Perm ([_, _] ++ _ :: [_]) (_ :: ([_, _] ++ [_])) from List.perm_middle).symm
    · simp only [List.pairwise_cons, List.forall_mem_cons, keyText]
      refine ⟨⟨?_, ?_, ?_, ?_⟩, ⟨?_, ?_, ?_⟩, ⟨?_, ?_⟩, ?_, ?_⟩
      all_goals decide
  simp only [ManifestEntry.dict, toJson, toJsonItems, if_true]
  rw [hsort]
  rfl

theorem sortable_dict (e : ManifestEntry) : sortable e.dict = true := by
  simp [ManifestEntry.dict, sortable, sortableItems, comparable, PyKey.isStr]

/-- Two values are written the same iff they are read back as the same tree. -/
theorem canonicalBytes_eq_iff {w : PyVal} (hv : sortable v = true) (hw : sortable w = true) :
    (∃ b, canonicalBytes P v = .ok b ∧ canonicalBytes P w = .ok b) ↔
      (toJson P.keySort true v).joined = (toJson P.keySort true w).joined := by
  have hok : ∀ {v : PyVal} {b : Bytes}, sortable v = true →
      (canonicalBytes P v = .ok b ↔ encode (render compactStyle (toJson P.keySort true v)) =
        some b) := by
    intro v b hv
    rw [← encodeE_eq_ok]
    simp [canonicalBytes, dumps, hv, bind, Except.bind]
  simp only [hok hv, hok hw]
  have hsame : render compactStyle (toJson P.keySort true v) = render compactStyle
      (toJson P.keySort true w) ↔ _ :=
    render_eq_iff rfl
  rw [← hsame]
  constructor
  · rintro ⟨b, hb, hb'⟩
    exact encode_injective hb hb'
  · intro h
    obtain ⟨b, hb⟩ := encode_of_ascii (ascii_render compactStyle rfl (toJson P.keySort true v))
    exact ⟨b, hb, h ▸ hb⟩

/-- Two normal forms have one hash iff they are read back from JSON as the same entries. -/
theorem manifestSha256_eq_iff (hP : Function.Injective P.sha256)
    (h : ∀ e ∈ entries, HashHex e.contentSha256 ∧ HashHex e.sourceSha256)
    (h' : ∀ e ∈ entries', HashHex e.contentSha256 ∧ HashHex e.sourceSha256) :
    (∃ digest, manifestSha256 P entries = .ok digest ∧ manifestSha256 P entries' = .ok digest) ↔
      entries.map ManifestEntry.joined = entries'.map ManifestEntry.joined := by
  have hsortable : ∀ entries : List ManifestEntry,
      sortable (.list (entries.map ManifestEntry.dict)) = true := by
    intro entries
    simp [sortable, sortable_dict]
  have hbytes : (∃ digest, manifestSha256 P entries = .ok digest ∧
    manifestSha256 P entries' = .ok digest) ↔
      ∃ b, canonicalBytes P (.list (entries.map ManifestEntry.dict)) = .ok b ∧
        canonicalBytes P (.list (entries'.map ManifestEntry.dict)) = .ok b := by
    simp only [manifestSha256, bind_eq_ok, pure, Except.pure, Except.ok.injEq]
    constructor
    · rintro ⟨digest, ⟨b, hb, rfl⟩, b', hb', hdigest⟩
      exact ⟨b, hb, hexdigest_inj hP hdigest ▸ hb'⟩
    · rintro ⟨b, hb, hb'⟩
      exact ⟨_, ⟨b, hb, rfl⟩, b, hb', rfl⟩
  have htree : ∀ e : ManifestEntry, HashHex e.contentSha256 ∧ HashHex e.sourceSha256 →
    (toJson P.keySort true e.dict).joined =
      .obj [(lit "chunk", .int e.joined.chunk), (lit "content_sha256", .str e.joined.contentSha256),
        (lit "source", .str e.joined.source),
        (lit "source_sha256", .str e.joined.sourceSha256)] := by
    intro e he
    rw [toJson_dict]
    simp only [Json.joined, joinedMembers, he.1.joinSurrogates, he.2.joinSurrogates,
      ManifestEntry.joined]
    rfl
  have hlist : ∀ {entries : List ManifestEntry},
    (∀ e ∈ entries, HashHex e.contentSha256 ∧ HashHex e.sourceSha256) →
      (toJson P.keySort true (.list (entries.map ManifestEntry.dict))).joined =
      .arr ((entries.map ManifestEntry.joined).map fun e =>
        .obj [(lit "chunk", .int e.chunk), (lit "content_sha256", .str e.contentSha256),
          (lit "source", .str e.source), (lit "source_sha256", .str e.sourceSha256)]) := by
    intro entries h
    simp only [toJson, toJsonElems_eq, Json.joined, joinedElems_eq, List.map_map, Json.arr.injEq]
    exact List.map_congr_left fun e he => htree e (h e he)
  rw [hbytes, canonicalBytes_eq_iff (hsortable _) (hsortable _), hlist h, hlist h', Json.arr.injEq]
  refine (List.map_injective_iff.mpr fun a b hab => ?_).eq_iff
  simp only [Json.obj.injEq, List.cons.injEq, Prod.mk.injEq, Json.int.injEq, Json.str.injEq,
    true_and, and_true, Nat.cast_inj] at hab
  cases a
  cases b
  simp_all

theorem hashHex_of_mem (h : normalizeManifest repr raw = .ok out) (he : e ∈ out) :
    HashHex e.contentSha256 ∧ HashHex e.sourceSha256 := by
  obtain ⟨entries, hall, -, rfl⟩ := normalizeManifest_eq_ok.mp h
  have hhash := hall.flip.imp fun (e : ManifestEntry) r (hr : IsEntry r e) =>
    (⟨⟨hr.contentHash, hr.wholeHash⟩, hr⟩ : (HashHex e.contentSha256 ∧ HashHex e.sourceSha256) ∧
      IsEntry r e)
  exact ((List.forall₂_and_left _ _).mp hhash).1 e ((List.mergeSort_perm _ _).mem_iff.mp he)

/-- Without surrogate pairs, the hash tells what the entries are. -/
theorem manifestSha256_eq_iff_perm {out' : List ManifestEntry} (hP : Function.Injective P.sha256)
    (h : normalizeManifest repr raw = .ok out) (h' : normalizeManifest repr raw' = .ok out')
    (hunpaired : ∀ e ∈ out, Unpaired e.source) (hunpaired' : ∀ e ∈ out', Unpaired e.source) :
    (∃ digest, manifestSha256 P out = .ok digest ∧ manifestSha256 P out' = .ok digest) ↔
        raw.Perm raw' := by
  have hjoined : ∀ {out : List ManifestEntry}, (∀ e ∈ out, Unpaired e.source) →
      out.map ManifestEntry.joined = out := by
    intro out hout
    conv_rhs => rw [← List.map_id out]
    refine List.map_congr_left fun e he => ?_
    rw [ManifestEntry.joined, joinSurrogates_of_unpaired (hout e he)]
    rfl
  rw [manifestSha256_eq_iff hP (fun e => hashHex_of_mem h) fun e => hashHex_of_mem h',
    hjoined hunpaired, hjoined hunpaired']
  constructor
  · rintro rfl
    exact perm_of_normalizeManifest h h'
  · intro hperm
    rw [normalizeManifest_of_perm hperm h] at h'
    exact Except.ok.inj h'

end

/-! ## The chunks of a text -/

/-- The chunks one after another, each without what it shares with the one before. -/
def rebuild : List Str → Str
  | [] => []
  | chunk :: chunks => chunk ++ chunks.flatMap (List.drop chunkOverlap)

section

variable {text chunk : Str} {fuel fuel' : ℕ}

/-- What is left after a round is shorter, and longer than the overlap. -/
theorem length_next (h : ¬ text.length ≤ chunkSize) :
    (text.drop (chunkSize - chunkOverlap)).length < text.length ∧
    chunkOverlap < (text.drop (chunkSize - chunkOverlap)).length := by
  simp only [List.length_drop, chunkSize, chunkOverlap] at h ⊢
  omega

/-- The loop ends before the fuel does. -/
theorem splitFrom_fuel (htext : text ≠ []) (hfuel : text.length ≤ fuel)
    (hfuel' : text.length ≤ fuel') : splitFrom fuel text = splitFrom fuel' text := by
  have hpos : 0 < text.length := List.length_pos_iff.mpr htext
  induction fuel generalizing text fuel' with
  | zero => omega
  | succ fuel ih =>
    obtain ⟨fuel', rfl⟩ : ∃ k, fuel' = k + 1 := ⟨fuel' - 1, by omega⟩
    rw [splitFrom, splitFrom]
    split
    · rfl
    · rename_i hlong
      have hnext := length_next hlong
      have hpos' : 0 < (text.drop (chunkSize - chunkOverlap)).length := by omega
      have hrest : splitFrom fuel _ = splitFrom fuel' _ :=
        ih (List.length_pos_iff.mp hpos') (by omega) (by omega) hpos'
      rw [hrest]

/-- From the second round on, a chunk starts where the text is known up to the overlap. -/
theorem flatMap_splitFrom (hfuel : text.length ≤ fuel) :
    (splitFrom fuel text).flatMap (List.drop chunkOverlap) = text.drop chunkOverlap := by
  induction fuel generalizing text with
  | zero =>
    rw [List.eq_nil_of_length_eq_zero (Nat.le_zero.mp hfuel), splitFrom, List.flatMap_nil,
      List.drop_nil]
  | succ fuel ih =>
    rw [splitFrom, List.flatMap_cons]
    split
    · rename_i hshort
      rw [List.take_of_length_le hshort, List.flatMap_nil, List.append_nil]
    · rename_i hlong
      have hnext := length_next hlong
      have hfirst : (text.take chunkSize).drop chunkOverlap = (text.drop chunkOverlap).take
          (chunkSize - chunkOverlap) :=
        List.drop_take ..
      have hcomm : (text.drop (chunkSize - chunkOverlap)).drop chunkOverlap =
          (text.drop chunkOverlap).drop (chunkSize - chunkOverlap) := by
        rw [List.drop_drop, List.drop_drop, Nat.add_comm]
      rw [ih (by omega), hfirst, hcomm, List.take_append_drop]

theorem rebuild_splitFrom (hfuel : text.length ≤ fuel) : rebuild (splitFrom fuel text) = text := by
  cases fuel with
  | zero => rw [List.eq_nil_of_length_eq_zero (Nat.le_zero.mp hfuel), splitFrom, rebuild]
  | succ fuel =>
    rw [splitFrom, rebuild]
    split
    · rename_i hshort
      rw [List.take_of_length_le hshort, List.flatMap_nil, List.append_nil]
    · rename_i hlong
      have hnext := length_next hlong
      have hsize : chunkSize - chunkOverlap + chunkOverlap = chunkSize := rfl
      rw [flatMap_splitFrom (by omega), List.drop_drop, hsize, List.take_append_drop]

theorem length_of_mem_splitFrom (htext : text ≠ []) (h : chunk ∈ splitFrom fuel text) :
    0 < chunk.length ∧ chunk.length ≤ chunkSize := by
  have hpos : 0 < text.length := List.length_pos_iff.mpr htext
  induction fuel generalizing text with
  | zero => cases h
  | succ fuel ih =>
    rw [splitFrom] at h
    rcases List.mem_cons.mp h with rfl | h
    · rw [List.length_take]
      exact ⟨Nat.lt_min.mpr ⟨by decide, hpos⟩, Nat.min_le_left _ _⟩
    · split at h
      · cases h
      · rename_i hlong
        have hnext := length_next hlong
        have hpos' : 0 < (text.drop (chunkSize - chunkOverlap)).length := by omega
        exact ih (List.length_pos_iff.mp hpos') h hpos'

theorem ne_nil_of_strip (h : strip text ≠ []) : text ≠ [] := fun hempty => h (by rw [hempty]; rfl)

/-- The chunks of a text that is not blank give it back. -/
theorem rebuild_splitVaultText (h : strip text ≠ []) : rebuild (splitVaultText text) = text := by
  rw [splitVaultText, if_neg h]
  split
  · simp [rebuild]
  · exact rebuild_splitFrom le_rfl

theorem length_of_mem_splitVaultText (h : chunk ∈ splitVaultText text) :
    0 < chunk.length ∧ chunk.length ≤ chunkSize := by
  unfold splitVaultText at h
  split at h
  · cases h
  rename_i hblank
  split at h
  · rename_i hshort
    obtain rfl := List.mem_singleton.mp h
    exact ⟨List.length_pos_iff.mpr (ne_nil_of_strip hblank), hshort⟩
  · exact length_of_mem_splitFrom (ne_nil_of_strip hblank) h

end

/-! ## An entry that is alone -/

section

variable {repr : PyVal → Str} {source : Str}

/-- Any SHA-256. -/
def someHash : Str := List.replicate 64 97

/-- The only chunk of a source. -/
def onlyChunk (source : Str) : RawEntry := ⟨.str source, .int 0, .str someHash, .str someHash⟩

theorem isEntry_onlyChunk (h : SafePath source) :
    IsEntry (onlyChunk source) ⟨source, 0, someHash, someHash⟩ := by
  have hhash : HashHex someHash := ⟨List.length_replicate, fun c hc => by
    obtain rfl := List.eq_of_mem_replicate hc
    decide⟩
  exact ⟨rfl, h, rfl, rfl, hhash, rfl, hhash⟩

theorem wellFormed_onlyChunk : WellFormed [⟨source, 0, someHash, someHash⟩] := by
  refine ⟨List.nodup_singleton _, fun a ha b hb _ => ?_, fun a ha k => ?_⟩
  · rw [List.mem_singleton.mp ha, List.mem_singleton.mp hb]
  · obtain rfl := List.mem_singleton.mp ha
    have hlength : (entriesOf [⟨source, 0, someHash, someHash⟩] source).length = 1 := by
      simp [entriesOf]
    rw [hlength]
    simp [eq_comm]

theorem normalizeManifest_onlyChunk (h : SafePath source) :
    normalizeManifest repr [onlyChunk source] = .ok [⟨source, 0, someHash, someHash⟩] :=
  normalizeManifest_eq_ok.mpr ⟨_, .cons (isEntry_onlyChunk h) .nil, wellFormed_onlyChunk,
    List.mergeSort_singleton _⟩

/-- A character beyond the sixteen bits. -/
def astral : Str := [0x1F600]

/-- The pair of surrogates that stands for it. -/
def astralPair : Str := [0xD83D, 0xDE00]

theorem safePath_astral : SafePath astral := ⟨by decide, by decide, by decide, by decide⟩

theorem safePath_astralPair : SafePath astralPair := ⟨by decide, by decide, by decide, by decide⟩

theorem sha256_tagged_injective : Function.Injective Platform.tagged.sha256 :=
  fun _ _ h => List.tail_eq_of_cons_eq h

end

/-! ## All of it -/

/-- A manifest is accepted iff its entries are, and together are well-formed; the normal form does
not depend on their order, and its hash tells it up to surrogate pairs. The chunks of a text that is
not blank give it back. -/
theorem manifest_law (repr : PyVal → Str) (P : Platform) (hP : Function.Injective P.sha256) :
    (∀ raw out, normalizeManifest repr raw = .ok out ↔
      ∃ entries, List.Forall₂ IsEntry raw entries ∧ WellFormed entries ∧
      sortEntries entries = out) ∧
    (∀ raw raw', raw.Perm raw' → ∀ out, normalizeManifest repr raw = .ok out ↔
      normalizeManifest repr raw' = .ok out) ∧
    (∀ raw raw' out out', normalizeManifest repr raw = .ok out → normalizeManifest repr raw' =
      .ok out' →
      ((∃ digest, manifestSha256 P out = .ok digest ∧ manifestSha256 P out' = .ok digest) ↔
        out.map ManifestEntry.joined = out'.map ManifestEntry.joined) ∧
      ((∀ e ∈ out, Unpaired e.source) → (∀ e ∈ out', Unpaired e.source) →
        ((∃ digest, manifestSha256 P out = .ok digest ∧ manifestSha256 P out' = .ok digest) ↔
          raw.Perm raw'))) ∧
    ∀ text, (text ≠ [] → ∀ fuel ≥ text.length, splitFrom fuel text = splitFrom text.length text) ∧
      (∀ chunk ∈ splitVaultText text, 0 < chunk.length ∧ chunk.length ≤ 3000) ∧
      (strip text = [] → splitVaultText text = []) ∧
          (strip text ≠ [] → rebuild (splitVaultText text) = text) := by
  refine ⟨fun raw out => normalizeManifest_eq_ok, fun raw raw' hperm out =>
    ⟨normalizeManifest_of_perm hperm,
    normalizeManifest_of_perm hperm.symm⟩, fun raw raw' out out' h h' => ?_, fun text =>
    ⟨fun htext fuel hfuel => splitFrom_fuel htext hfuel le_rfl,
    fun chunk => length_of_mem_splitVaultText, fun h => if_pos h, rebuild_splitVaultText⟩⟩
  exact ⟨manifestSha256_eq_iff hP (fun e => hashHex_of_mem h) fun e => hashHex_of_mem h',
    manifestSha256_eq_iff_perm hP h h'⟩

theorem manifest_law_astral : ∃ digest, manifestSha256 Platform.tagged
    [⟨astral, 0, someHash, someHash⟩] = .ok digest ∧
    manifestSha256 Platform.tagged [⟨astralPair, 0, someHash, someHash⟩] = .ok digest :=
  ((manifest_law (fun _ => []) Platform.tagged sha256_tagged_injective).2.2.1
    _ _ _ _ (normalizeManifest_onlyChunk safePath_astral)
    (normalizeManifest_onlyChunk safePath_astralPair)).1.mpr (by decide)

/-- Two manifests with different entries and one hash, and a blank text that its chunks do not give
back. -/
theorem same_hash_and_lost_text :
    (∃ out out', normalizeManifest (fun _ => []) [onlyChunk astral] = .ok out ∧
      normalizeManifest (fun _ => []) [onlyChunk astralPair] = .ok out' ∧
      (∃ digest, manifestSha256 Platform.tagged out = .ok digest ∧
        manifestSha256 Platform.tagged out' = .ok digest) ∧
      ¬ [onlyChunk astral].Perm [onlyChunk astralPair]) ∧
    rebuild (splitVaultText [32]) ≠ [32] := by
  refine ⟨⟨_, _, normalizeManifest_onlyChunk safePath_astral,
    normalizeManifest_onlyChunk safePath_astralPair, ?_, ?_⟩, by decide⟩
  · have hhash : ∀ {source : Str}, SafePath source →
      ∀ e ∈ [(⟨source, 0, someHash, someHash⟩ : ManifestEntry)],
        HashHex e.contentSha256 ∧ HashHex e.sourceSha256 := fun h e =>
      hashHex_of_mem (show normalizeManifest (fun _ => []) _ = _ from normalizeManifest_onlyChunk h)
    exact (manifestSha256_eq_iff sha256_tagged_injective (hhash safePath_astral)
      (hhash safePath_astralPair)).mpr (by decide)
  · rw [List.perm_singleton]
    simp [onlyChunk, astral, astralPair]

end Rag
