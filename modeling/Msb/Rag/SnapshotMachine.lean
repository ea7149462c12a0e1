import Msb.Infra.HashChain
import Msb.Rag.IndexState

/-!
# The snapshots as a state machine

A snapshot moves from `building` to `active` to `retired`, or from `building` to `aborted`; a tenant
has one active snapshot, the one its pointer names; and an activation follows the one that was
active when its snapshot was begun.

Only the commit and the record of an upload look at the status. What the others do to a snapshot
that is not building any more has no effect: all its entries are uploaded, and neither a reservation
nor a release touches an uploaded entry.

* `run_snapshots` — what holds after every transaction of every run
-/

namespace Rag

open Py Ledger HashChain

/-! ## What is claimed -/

/-- The moves of a snapshot. -/
def Status.next : Status → List Status
  | .building => [.active, .aborted]
  | .active => [.retired]
  | .retired => []
  | .aborted => []

/-- What does not change about a snapshot. -/
def Snapshot.frame (x : Snapshot) : Snapshot :=
  { x with status := .building, activatedAt := none, manifest := [] }

/-- The entry is the same, and stays uploaded once it is. -/
structure SameEntry (r r' : ManifestRow) : Prop where
  entry : r'.toManifestEntry = r.toManifestEntry
  done : r.uploaded = .done → r'.uploaded = .done

/-- The same snapshot, some transactions later. -/
structure Continues (x y : Snapshot) : Prop where
  frame : y.frame = x.frame
  manifest : List.Forall₂ SameEntry x.manifest y.manifest

/-- One transaction. The manifest of an active or retired snapshot is the same to the last flag, and
no activation is taken back. -/
structure Moved (s t : IndexState) : Prop where
  kept : ∀ x ∈ s.snapshots, ∃ y ∈ t.snapshots, Continues x y ∧
    (y.status = x.status ∨ y.status ∈ x.status.next) ∧
    (x.status = .active ∨ x.status = .retired → y.manifest = x.manifest)
  begun : ∀ y ∈ t.snapshots, (∃ x ∈ s.snapshots, Continues x y) ∨ y.status = .building
  activations : s.activations <+: t.activations

/-- The pointer of a tenant names a snapshot, with its digest and counts. -/
structure Names (a : ActiveIndex) (x : Snapshot) : Prop where
  tenantId : a.tenantId = x.tenantId
  snapshotId : a.snapshotId = x.snapshotId
  collectionName : a.collectionName = x.collectionName
  manifestSha256 : a.manifestSha256 = x.manifestSha256
  expectedPoints : a.expectedPoints = x.expectedPoints
  sourceCount : a.sourceCount = x.sourceCount
  activatedAt : some a.activatedAt = x.activatedAt

/-- What the tables say is one story. -/
structure Consistent (s : IndexState) : Prop where
  oneActive : ∀ x ∈ s.snapshots, ∀ y ∈ s.snapshots, x.status = .active → y.status = .active →
    x.tenantId = y.tenantId → x = y
  onePointer : (s.active.map ActiveIndex.tenantId).Nodup
  pointer : ∀ a ∈ s.active, ∃ x ∈ s.snapshots, x.status = .active ∧ Names a x
  named : ∀ x ∈ s.snapshots, x.status = .active → ∃ a ∈ s.active, Names a x
  whole : ∀ x ∈ s.snapshots, x.status = .active ∨ x.status = .retired → ∀ r ∈ x.manifest,
    r.uploaded = .done ∧ s.recorded.count (x.snapshotId, r.key) = 1
  chain : ∀ tenantId, Linked Activation.baseSnapshotId (fun v => some v.snapshotId) none
    (s.activationsOf tenantId)

/-! ## The invariant -/

structure Inv (s : IndexState) : Prop where
  ids : (s.snapshots.map Snapshot.snapshotId).Nodup
  keys : ∀ x ∈ s.snapshots, (x.manifest.map fun r => r.key).Nodup
  expected : ∀ x ∈ s.snapshots, x.expectedPoints = x.manifest.length
  counted : ∀ x ∈ s.snapshots, ∀ r ∈ x.manifest,
    s.recorded.count (x.snapshotId, r.key) = if r.uploaded = .done then 1 else 0
  recorded : ∀ p ∈ s.recorded, ∃ x ∈ s.snapshots, x.snapshotId = p.1
  whole : ∀ x ∈ s.snapshots, x.status = .active ∨ x.status = .retired → ∀ r ∈ x.manifest,
    r.uploaded = .done
  tenants : (s.active.map ActiveIndex.tenantId).Nodup
  pointer : ∀ a ∈ s.active, ∃ x ∈ s.snapshots, x.status = .active ∧ Names a x
  named : ∀ x ∈ s.snapshots, x.status = .active → ∃ a ∈ s.active, Names a x
  activated : ∀ v ∈ s.activations, ∃ x ∈ s.snapshots, x.snapshotId = v.snapshotId ∧
    x.status ≠ .building
  once : (s.activations.map Activation.snapshotId).Nodup
  chain : ∀ tenantId, Linked Activation.baseSnapshotId (fun v => some v.snapshotId) none
    (s.activationsOf tenantId)
  tip : ∀ tenantId, tip (fun v : Activation => some v.snapshotId) none (s.activationsOf tenantId) =
    (s.activeOf tenantId).map ActiveIndex.snapshotId

theorem inv_empty : Inv IndexState.empty where
  ids := List.nodup_nil
  keys _ h := by cases h
  expected _ h := by cases h
  counted _ h := by cases h
  recorded _ h := by cases h
  whole _ h := by cases h
  tenants := List.nodup_nil
  pointer _ h := by cases h
  named _ h := by cases h
  activated _ h := by cases h
  once := List.nodup_nil
  chain _ := trivial
  tip _ := rfl

variable {s t : IndexState} {x y z : Snapshot}

theorem Inv.eq_of_id (h : Inv s) (hx : x ∈ s.snapshots) (hy : y ∈ s.snapshots)
    (hid : x.snapshotId = y.snapshotId) : x = y :=
  List.inj_on_of_nodup_map h.ids hx hy hid

theorem Inv.consistent (h : Inv s) : Consistent s where
  oneActive x hx y hy hxs hys htenant := by
    obtain ⟨a, ha, hax⟩ := h.named x hx hxs
    obtain ⟨b, hb, hby⟩ := h.named y hy hys
    have hab : a = b :=
      List.inj_on_of_nodup_map h.tenants ha hb (by rw [hax.tenantId, hby.tenantId, htenant])
    refine h.eq_of_id hx hy ?_
    rw [← hax.snapshotId, hab, hby.snapshotId]
  onePointer := h.tenants
  pointer := h.pointer
  named := h.named
  whole x hx hs r hr := by
    have hdone := h.whole x hx hs r hr
    refine ⟨hdone, ?_⟩
    rw [h.counted x hx r hr, if_pos hdone]
  chain := h.chain

/-! ## Finding -/

theorem find_eq_some {snapshotId : Str} (h : s.find snapshotId = some x) :
    x ∈ s.snapshots ∧ x.snapshotId = snapshotId :=
  ⟨List.mem_of_find?_eq_some h,
    of_decide_eq_true
    (List.find?_some (p := fun x : Snapshot => decide (x.snapshotId = snapshotId)) h)⟩

theorem getSnapshot_eq_some {snapshotId tenantId : Str}
    (h : s.getSnapshot snapshotId tenantId = some x) :
    x ∈ s.snapshots ∧ x.snapshotId = snapshotId ∧ x.tenantId = tenantId := by
  obtain ⟨hfind, htenant⟩ := Option.filter_eq_some_iff.mp h
  obtain ⟨hmem, hid⟩ := find_eq_some hfind
  exact ⟨hmem, hid, of_decide_eq_true htenant⟩

theorem mem_of_activeOf {tenantId : Str} {a : ActiveIndex} (h : s.activeOf tenantId = some a) :
    a ∈ s.active ∧ a.tenantId = tenantId :=
  ⟨List.mem_of_find?_eq_some h,
    of_decide_eq_true
    (List.find?_some (p := fun a : ActiveIndex => decide (a.tenantId = tenantId)) h)⟩

theorem find_of_mem (h : Inv s) (hx : x ∈ s.snapshots) : s.find x.snapshotId = some x := by
  cases hfind : s.find x.snapshotId with
  | none => exact absurd (decide_eq_true rfl) (List.find?_eq_none.mp hfind x hx)
  | some y =>
    obtain ⟨hy, hid⟩ := find_eq_some hfind
    rw [h.eq_of_id hy hx hid]

theorem activeOf_eq_some (h : Inv s) {tenantId : Str} {a : ActiveIndex} :
    s.activeOf tenantId = some a ↔ a ∈ s.active ∧ a.tenantId = tenantId := by
  refine ⟨mem_of_activeOf, ?_⟩
  rintro ⟨ha, htenant⟩
  cases hfind : s.activeOf tenantId with
  | none => exact absurd (decide_eq_true htenant) (List.find?_eq_none.mp hfind a ha)
  | some b =>
    obtain ⟨hb, hbt⟩ := mem_of_activeOf hfind
    rw [List.inj_on_of_nodup_map h.tenants hb ha (hbt.trans htenant.symm)]

/-! ## Marking entries -/

/-- What a reservation or a release does to a snapshot: the entries that are uploaded are the same.
-/
structure Marked (x y : Snapshot) : Prop where
  frame : y.frame = x.frame
  status : y.status = x.status
  activatedAt : y.activatedAt = x.activatedAt
  manifest : List.Forall₂ (fun r r' : ManifestRow => r'.toManifestEntry = r.toManifestEntry ∧
    (r'.uploaded = .done ↔ r.uploaded = .done)) x.manifest y.manifest

theorem Marked.refl (x : Snapshot) : Marked x x :=
  ⟨rfl, rfl, rfl, List.forall₂_same.mpr fun _ _ => ⟨rfl, Iff.rfl⟩⟩

theorem Marked.trans (h : Marked x y) (h' : Marked y z) : Marked x z where
  frame := h'.frame.trans h.frame
  status := h'.status.trans h.status
  activatedAt := h'.activatedAt.trans h.activatedAt
  manifest := by
    have hcomp := List.forall₂_iff_get.mp h.manifest
    have hcomp' := List.forall₂_iff_get.mp h'.manifest
    refine List.forall₂_iff_get.mpr ⟨hcomp.1.trans hcomp'.1, fun i hi hi' => ?_⟩
    have hmid : i < y.manifest.length := hcomp.1 ▸ hi
    obtain ⟨hentry, hdone⟩ := hcomp.2 i hi hmid
    obtain ⟨hentry', hdone'⟩ := hcomp'.2 i hmid hi'
    exact ⟨hentry'.trans hentry, hdone'.trans hdone⟩

/-- A mark that neither makes nor takes an upload. -/
theorem marked_mark (x : Snapshot) (key : Key) {before after : Upload} (hbefore : before ≠ .done)
    (hafter : after ≠ .done) :
    Marked x (x.mark key before after) where
  frame := rfl
  status := rfl
  activatedAt := rfl
  manifest := by
    show List.Forall₂ _ x.manifest (x.manifest.map _)
    rw [List.forall₂_map_right_iff, List.forall₂_same]
    intro r _
    split
    · next h =>
      refine ⟨rfl, iff_of_false hafter ?_⟩
      rw [h.2]
      exact hbefore
    · exact ⟨rfl, Iff.rfl⟩

theorem reserveAll_marked : ∀ {keys : List Key} {x y : Snapshot} {claimed : List Key},
    reserveAll x keys = .ok (y, claimed) → Marked x y
  | [], x, y, _, h => by
    obtain ⟨rfl, -⟩ := Prod.mk.inj (Except.ok.inj h)
    exact .refl x
  | key :: keys, x, y, claimed, h => by
    unfold reserveAll at h
    cases hrow : x.row key with
    | none =>
      rw [hrow] at h
      cases h
    | some row =>
      rw [hrow] at h
      cases hup : row.uploaded with
      | claimed =>
        simp only [hup] at h
        cases h
      | done =>
        simp only [hup] at h
        exact reserveAll_marked h
      | free =>
        simp only [hup] at h
        obtain ⟨⟨y', claimed'⟩, hrest, h⟩ := bind_eq_ok.mp h
        obtain ⟨rfl, -⟩ := Prod.mk.inj (Except.ok.inj h)
        exact (marked_mark x key (by decide) (by decide)).trans (reserveAll_marked hrest)

theorem release_marked (x : Snapshot) (keys : List Key) :
    Marked x (keys.foldl (fun x key => x.mark key .claimed .free) x) := by
  induction keys generalizing x with
  | nil => exact .refl x
  | cons key keys ih => exact (marked_mark x key (by decide) (by decide)).trans (ih _)

/-- A marked manifest whose entries are all uploaded. -/
theorem Marked.manifest_eq (h : Marked x y) (hwhole : ∀ r ∈ x.manifest, r.uploaded = .done) :
    y.manifest = x.manifest := by
  obtain ⟨-, -, -, hmanifest⟩ := h
  generalize x.manifest = rows at hmanifest hwhole
  generalize y.manifest = rows' at hmanifest
  induction hmanifest with
  | nil => rfl
  | @cons r r' rows rows' hr _ ih =>
    have hdone := hwhole r List.mem_cons_self
    have hdone' := hr.2.mpr hdone
    obtain ⟨e, u⟩ := r
    obtain ⟨e', u'⟩ := r'
    obtain rfl : e' = e := hr.1
    obtain rfl : u = .done := hdone
    obtain rfl : u' = .done := hdone'
    rw [ih fun q hq => hwhole q (List.mem_cons_of_mem _ hq)]

/-! ## One snapshot after the other -/

/-- The snapshots are the same, each related to what it was. -/
structure Evolves (R : Snapshot → Snapshot → Prop) (s t : IndexState) : Prop where
  ids : t.snapshots.map Snapshot.snapshotId = s.snapshots.map Snapshot.snapshotId
  later : ∀ x ∈ s.snapshots, ∃ y ∈ t.snapshots, R x y
  earlier : ∀ y ∈ t.snapshots, ∃ x ∈ s.snapshots, R x y

theorem evolves_map {R : Snapshot → Snapshot → Prop} {f : Snapshot → Snapshot}
    (hmap : t.snapshots = s.snapshots.map f)
    (hid : ∀ x ∈ s.snapshots, (f x).snapshotId = x.snapshotId) (hR : ∀ x ∈ s.snapshots, R x (f x)) :
    Evolves R s t where
  ids := by
    rw [hmap, List.map_map]
    exact List.map_congr_left hid
  later x hx := ⟨f x, by rw [hmap]; exact List.mem_map_of_mem hx, hR x hx⟩
  earlier y hy := by
    rw [hmap] at hy
    obtain ⟨x, hx, rfl⟩ := List.mem_map.mp hy
    exact ⟨x, hx, hR x hx⟩

/-- The fields that a frame has. -/
theorem fields_of_frame (h : y.frame = x.frame) : y.snapshotId = x.snapshotId ∧
    y.tenantId = x.tenantId ∧
    y.collectionName = x.collectionName ∧ y.manifestSha256 = x.manifestSha256 ∧
    y.expectedPoints = x.expectedPoints ∧
    y.sourceCount = x.sourceCount ∧ y.baseSnapshotId = x.baseSnapshotId := by
  unfold Snapshot.frame at h
  injection h with hid htenant hcollection hdigest hexpected hsources hbase
  exact ⟨hid, htenant, hcollection, hdigest, hexpected, hsources, hbase⟩

theorem Names.of_frame {a : ActiveIndex} (h : Names a x) (hframe : y.frame = x.frame)
    (hactivated : y.activatedAt = x.activatedAt) : Names a y := by
  obtain ⟨hid, htenant, hcollection, hdigest, hexpected, hsources, -⟩ := fields_of_frame hframe
  exact ⟨h.tenantId.trans htenant.symm, h.snapshotId.trans hid.symm,
    h.collectionName.trans hcollection.symm,
    h.manifestSha256.trans hdigest.symm, h.expectedPoints.trans hexpected.symm,
    h.sourceCount.trans hsources.symm,
    h.activatedAt.trans hactivated.symm⟩

theorem Marked.snapshotId (h : Marked x y) : y.snapshotId = x.snapshotId :=
  (fields_of_frame h.frame).1

theorem Continues.keys (h : Continues x y) :
    y.manifest.map (fun r => r.key) = x.manifest.map fun r => r.key := by
  obtain ⟨-, hmanifest⟩ := h
  generalize x.manifest = rows at hmanifest ⊢
  generalize y.manifest = rows' at hmanifest ⊢
  induction hmanifest with
  | nil => rfl
  | @cons r r' _ _ hr _ ih =>
    rw [List.map_cons, List.map_cons, ih,
      show r'.key = r.key from congrArg ManifestEntry.key hr.entry]

/-- What an invariant says of the snapshots alone goes on with them. -/
theorem Inv.shape (h : Inv s) {R : Snapshot → Snapshot → Prop} (hev : Evolves R s t)
    (hR : ∀ x y, R x y → Continues x y) : (t.snapshots.map Snapshot.snapshotId).Nodup ∧
      (∀ y ∈ t.snapshots, (y.manifest.map fun r => r.key).Nodup) ∧
      ∀ y ∈ t.snapshots, y.expectedPoints = y.manifest.length := by
  refine ⟨?_, fun y hy => ?_, fun y hy => ?_⟩
  · rw [hev.ids]
    exact h.ids
  · obtain ⟨x, hx, hxy⟩ := hev.earlier y hy
    rw [(hR x y hxy).keys]
    exact h.keys x hx
  · obtain ⟨x, hx, hxy⟩ := hev.earlier y hy
    obtain ⟨-, -, -, -, hexpected, -⟩ := fields_of_frame (hR x y hxy).frame
    rw [hexpected, h.expected x hx]
    exact (hR x y hxy).manifest.length_eq

theorem Marked.row (h : Marked x y) {r' : ManifestRow} (hr' : r' ∈ y.manifest) :
    ∃ r ∈ x.manifest, r'.toManifestEntry = r.toManifestEntry ∧
    (r'.uploaded = .done ↔ r.uploaded = .done) := by
  obtain ⟨-, -, -, hmanifest⟩ := h
  generalize x.manifest = rows at hmanifest ⊢
  generalize y.manifest = rows' at hmanifest hr'
  induction hmanifest with
  | nil => cases hr'
  | @cons r q _ _ hr _ ih =>
    rcases List.mem_cons.mp hr' with rfl | hmem
    · exact ⟨r, List.mem_cons_self, hr⟩
    · obtain ⟨r, hr, hsame⟩ := ih hmem
      exact ⟨r, List.mem_cons_of_mem _ hr, hsame⟩

theorem Marked.continues (h : Marked x y) : Continues x y where
  frame := h.frame
  manifest := h.manifest.imp fun _ _ hr => ⟨hr.1, hr.2.mpr⟩

/-- What a transaction that is no commit does to a snapshot. -/
structure Quiet (x y : Snapshot) : Prop where
  continues : Continues x y
  activatedAt : y.activatedAt = x.activatedAt
  status : y.status = x.status ∨ x.status = .building ∧ y.status = .aborted
  whole : x.status = .active ∨ x.status = .retired → y.manifest = x.manifest

theorem Quiet.refl (x : Snapshot) : Quiet x x :=
  ⟨(Marked.refl x).continues, rfl, Or.inl rfl, fun _ => rfl⟩

/-- A quiet transaction makes no snapshot active or retired. -/
theorem Quiet.status_eq (h : Quiet x y) (hs : y.status = .active ∨ y.status = .retired) :
    y.status = x.status := by
  rcases h.status with hsame | ⟨-, habort⟩
  · exact hsame
  · rw [habort] at hs
    rcases hs with hs | hs <;> cases hs

theorem Quiet.status_of (h : Quiet x y) (hs : x.status = .active ∨ x.status = .retired) :
    y.status = x.status := by
  rcases h.status with hsame | ⟨hbuild, -⟩
  · exact hsame
  · rw [hbuild] at hs
    rcases hs with hs | hs <;> cases hs

theorem Marked.quiet (h : Marked x y) (hwhole : x.status = .active ∨ x.status = .retired →
    ∀ r ∈ x.manifest, r.uploaded = .done) : Quiet x y :=
  ⟨h.continues, h.activatedAt, Or.inl h.status, fun hs => h.manifest_eq (hwhole hs)⟩

/-- **What is no commit keeps the invariant**, if the records it makes are the entries it marks as
uploaded. -/
theorem Inv.quiet (h : Inv s) (hev : Evolves Quiet s t) (hactive : t.active = s.active)
    (hactivations : t.activations = s.activations)
    (hcounted : ∀ y ∈ t.snapshots, ∀ r ∈ y.manifest, t.recorded.count (y.snapshotId, r.key) =
      if r.uploaded = .done then 1 else 0)
    (hrecorded : ∀ p ∈ t.recorded, ∃ x ∈ s.snapshots, x.snapshotId = p.1) : Inv t ∧ Moved s t := by
  have hof : ∀ tenantId, t.activationsOf tenantId = s.activationsOf tenantId := fun tenantId => by
    unfold IndexState.activationsOf
    rw [hactivations]
  have hactiveOf : ∀ tenantId, t.activeOf tenantId = s.activeOf tenantId := fun tenantId => by
    unfold IndexState.activeOf
    rw [hactive]
  have hframe : ∀ {x y}, Quiet x y → y.snapshotId = x.snapshotId :=
    fun hq => (fields_of_frame hq.continues.frame).1
  obtain ⟨hids, hkeys, hexpected⟩ := h.shape hev fun _ _ hq => hq.continues
  -- each part is read off the earlier snapshot of the same id
  refine ⟨⟨hids, hkeys, hexpected, hcounted, fun p hp => ?_, fun y hy hs r hr => ?_, ?_,
    fun a ha => ?_,
    fun y hy hs => ?_, fun v hv => ?_, ?_, fun tenantId => ?_, fun tenantId => ?_⟩,
    ⟨fun x hx => ?_, fun y hy => ?_, by rw [hactivations]⟩⟩
  · obtain ⟨x, hx, hid⟩ := hrecorded p hp
    obtain ⟨y, hy, hq⟩ := hev.later x hx
    exact ⟨y, hy, (hframe hq).trans hid⟩
  · obtain ⟨x, hx, hq⟩ := hev.earlier y hy
    have hs' : x.status = .active ∨ x.status = .retired := by
      rw [← hq.status_eq hs]
      exact hs
    rw [hq.whole hs'] at hr
    exact h.whole x hx hs' r hr
  · rw [hactive]
    exact h.tenants
  · rw [hactive] at ha
    obtain ⟨x, hx, hs, hnames⟩ := h.pointer a ha
    obtain ⟨y, hy, hq⟩ := hev.later x hx
    exact ⟨y, hy, (hq.status_of (Or.inl hs)).trans hs,
      hnames.of_frame hq.continues.frame hq.activatedAt⟩
  · obtain ⟨x, hx, hq⟩ := hev.earlier y hy
    obtain ⟨a, ha, hnames⟩ := h.named x hx ((hq.status_eq (Or.inl hs)).symm.trans hs)
    rw [hactive]
    exact ⟨a, ha, hnames.of_frame hq.continues.frame hq.activatedAt⟩
  · rw [hactivations] at hv
    obtain ⟨x, hx, hid, hs⟩ := h.activated v hv
    obtain ⟨y, hy, hq⟩ := hev.later x hx
    refine ⟨y, hy, (hframe hq).trans hid, ?_⟩
    rcases hq.status with hsame | ⟨hbuild, -⟩
    · rw [hsame]
      exact hs
    · exact absurd hbuild hs
  · rw [hactivations]
    exact h.once
  · rw [hof]
    exact h.chain tenantId
  · rw [hof, hactiveOf]
    exact h.tip tenantId
  · obtain ⟨y, hy, hq⟩ := hev.later x hx
    refine ⟨y, hy, hq.continues, ?_, hq.whole⟩
    rcases hq.status with hsame | ⟨hbuild, habort⟩
    · exact Or.inl hsame
    · right
      rw [hbuild, habort]
      decide
  · obtain ⟨x, hx, hq⟩ := hev.earlier y hy
    exact Or.inl ⟨x, hx, hq.continues⟩

/-- **Reservations and releases keep the invariant.** -/
theorem Inv.marked (h : Inv s) (hev : Evolves Marked s t) (hactive : t.active = s.active)
    (hrecorded : t.recorded = s.recorded) (hactivations : t.activations = s.activations) :
    Inv t ∧ Moved s t := by
  refine h.quiet ⟨hev.ids, fun x hx => ?_, fun y hy => ?_⟩ hactive hactivations
    (fun y hy r hr => ?_) fun p hp => ?_
  · obtain ⟨y, hy, hm⟩ := hev.later x hx
    exact ⟨y, hy, hm.quiet (h.whole x hx)⟩
  · obtain ⟨x, hx, hm⟩ := hev.earlier y hy
    exact ⟨x, hx, hm.quiet (h.whole x hx)⟩
  · obtain ⟨x, hx, hm⟩ := hev.earlier y hy
    obtain ⟨q, hq, hentry, hdone⟩ := hm.row hr
    have hkey : r.key = q.key := congrArg ManifestEntry.key hentry
    rw [hrecorded, hm.snapshotId, hkey, h.counted x hx q hq]
    simp only [hdone]
  · rw [hrecorded] at hp
    exact h.recorded p hp

/-! ## Recording -/

/-- What `record_uploaded` does to a snapshot: the entries of the keys, claimed till then, are
uploaded. -/
structure RecordedAs (keys : List Key) (x y : Snapshot) : Prop where
  nodup : keys.Nodup
  frame : y.frame = x.frame
  status : y.status = x.status
  activatedAt : y.activatedAt = x.activatedAt
  manifest : y.manifest = x.manifest.map fun r => if r.key ∈ keys
    then { r with uploaded := .done } else r
  claimed : ∀ key ∈ keys, ∃ r ∈ x.manifest, r.key = key ∧ r.uploaded = .claimed

theorem row_eq_some {key : Key} {r : ManifestRow} (h : x.row key = some r) :
    r ∈ x.manifest ∧ r.key = key :=
  ⟨List.mem_of_find?_eq_some h,
    of_decide_eq_true (List.find?_some (p := fun r : ManifestRow => decide (r.key = key)) h)⟩

theorem recordAll_spec : ∀ {keys : List Key} {x y : Snapshot},
    (x.manifest.map fun r => r.key).Nodup → recordAll x keys = .ok y → RecordedAs keys x y
  | [], x, y, _, h => by
    obtain rfl := Except.ok.inj h
    refine ⟨List.nodup_nil, rfl, rfl, rfl, ?_, fun _ hk => (by cases hk)⟩
    simp
  | key :: keys, x, y, hnodup, h => by
    obtain ⟨_, hclaim, h⟩ := bind_eq_ok.mp h
    rw [raiseIf_eq_ok, not_not, Option.map_eq_some_iff] at hclaim
    obtain ⟨row, hrow, hclaimed⟩ := hclaim
    obtain ⟨hmem, hkey⟩ := row_eq_some hrow
    have hmark : (x.mark key .claimed .done).manifest =
        x.manifest.map fun r => if r.key = key then { r with uploaded := .done } else r := by
      refine List.map_congr_left fun r hr => ?_
      by_cases hrk : r.key = key
      · have hsame : r = row := List.inj_on_of_nodup_map hnodup hr hmem (hrk.trans hkey.symm)
        rw [if_pos hrk, if_pos ⟨hrk, by rw [hsame]; exact hclaimed⟩]
      · rw [if_neg hrk, if_neg fun hand => hrk hand.1]
    have hkeys : ((x.mark key .claimed .done).manifest.map fun r => r.key) = x.manifest.map fun r =>
        r.key := by
      rw [hmark, List.map_map]
      refine List.map_congr_left fun r _ => ?_
      show (if r.key = key then _ else r : ManifestRow).key = r.key
      split <;> rfl
    obtain ⟨hnodup', hframe, hstatus, hactivated, hmanifest, hrest⟩ :=
      recordAll_spec (by rw [hkeys]; exact hnodup) h
    -- an entry that is still claimed after the mark was claimed before, and has another key
    have hold : ∀ k ∈ keys, k ≠ key ∧ ∃ r ∈ x.manifest, r.key = k ∧ r.uploaded = .claimed := by
      intro k hk
      obtain ⟨r', hr', hrk, hup⟩ := hrest k hk
      rw [hmark] at hr'
      obtain ⟨r, hr, rfl⟩ := List.mem_map.mp hr'
      by_cases hrkey : r.key = key
      · rw [if_pos hrkey] at hup
        cases hup
      · rw [if_neg hrkey] at hrk hup
        exact ⟨hrk ▸ hrkey, r, hr, hrk, hup⟩
    refine ⟨List.nodup_cons.mpr ⟨fun hk => (hold key hk).1 rfl, hnodup'⟩, hframe, hstatus,
      hactivated, ?_, fun k hk => ?_⟩
    · rw [hmanifest, hmark, List.map_map]
      refine List.map_congr_left fun r _ => ?_
      by_cases hrkey : r.key = key
      · have hin : r.key ∈ key :: keys := List.mem_cons.mpr (Or.inl hrkey)
        simp only [Function.comp_apply, if_pos hrkey, if_pos hin, ite_self]
      · have hiff : r.key ∈ key :: keys ↔ r.key ∈ keys := by simp [hrkey]
        simp only [Function.comp_apply, if_neg hrkey, hiff]
    · rcases List.mem_cons.mp hk with rfl | hk
      · exact ⟨row, hmem, hkey, hclaimed⟩
      · exact (hold k hk).2

theorem RecordedAs.continues {keys : List Key} (h : RecordedAs keys x y) : Continues x y where
  frame := h.frame
  manifest := by
    rw [h.manifest, List.forall₂_map_right_iff, List.forall₂_same]
    intro r _
    split
    · exact ⟨rfl, fun _ => rfl⟩
    · exact ⟨rfl, id⟩

/-- The tables with another row for a snapshot. -/
theorem evolves_modify {R : Snapshot → Snapshot → Prop} {f : Snapshot → Snapshot} (h : Inv s)
    (hx : x ∈ s.snapshots)
    (ht : t.snapshots = (s.modify x.snapshotId f).snapshots) (hid : (f x).snapshotId = x.snapshotId)
    (hrefl : ∀ z, R z z) (hxy : R x (f x)) :
    Evolves (fun z z' => R z z' ∧ (z = x ∧ z' = f x ∨ z.snapshotId ≠ x.snapshotId ∧ z' = z)) s
        t := by
  refine evolves_map (f := fun z => if z.snapshotId = x.snapshotId then f z else z) ht
    (fun z hz => ?_) fun z hz => ?_
  · by_cases hzx : z.snapshotId = x.snapshotId
    · obtain rfl := h.eq_of_id hz hx hzx
      rw [if_pos rfl, hid]
    · rw [if_neg hzx]
  · by_cases hzx : z.snapshotId = x.snapshotId
    · obtain rfl := h.eq_of_id hz hx hzx
      rw [if_pos rfl]
      exact ⟨hxy, Or.inl ⟨rfl, rfl⟩⟩
    · rw [if_neg hzx]
      exact ⟨hrefl z, Or.inr ⟨hzx, rfl⟩⟩

theorem Evolves.mono {R R' : Snapshot → Snapshot → Prop} (h : Evolves R s t)
    (himp : ∀ x y, R x y → R' x y) :
    Evolves R' s t where
  ids := h.ids
  later x hx := by
    obtain ⟨y, hy, hxy⟩ := h.later x hx
    exact ⟨y, hy, himp x y hxy⟩
  earlier y hy := by
    obtain ⟨x, hx, hxy⟩ := h.earlier y hy
    exact ⟨x, hx, himp x y hxy⟩

/-- **Recording keeps the invariant**: the entries that become uploaded are recorded, once. -/
theorem Inv.record (h : Inv s) {keys : List Key} (hx : x ∈ s.snapshots)
    (hstatus : x.status = .building)
    (hxy : RecordedAs keys x y)
    (hsnapshots : t.snapshots = (s.modify x.snapshotId fun _ => y).snapshots)
    (hactive : t.active = s.active) (hactivations : t.activations = s.activations)
    (hrecorded : t.recorded = s.recorded ++ keys.map fun key => (x.snapshotId, key)) :
    Inv t ∧ Moved s t := by
  have hid : y.snapshotId = x.snapshotId := (fields_of_frame hxy.frame).1
  have hquiet : Quiet x y := by
    refine ⟨hxy.continues, hxy.activatedAt, Or.inl hxy.status, fun hs => ?_⟩
    rw [hstatus] at hs
    rcases hs with hs | hs <;> cases hs
  have hev := evolves_modify (f := fun _ => y) h hx hsnapshots hid Quiet.refl hquiet
  -- one more point for each key of the call, and for no other
  have hcount : ∀ snapshotId key, t.recorded.count (snapshotId, key) = s.recorded.count
    (snapshotId, key) + if snapshotId = x.snapshotId ∧ key ∈ keys then 1 else 0 := by
    intro snapshotId key
    rw [hrecorded, List.count_append]
    congr 1
    by_cases hsx : snapshotId = x.snapshotId
    · rw [hsx, List.count_map_of_injective _ _ fun a b hab => (Prod.mk.inj hab).2]
      by_cases hk : key ∈ keys
      · rw [if_pos ⟨rfl, hk⟩]
        exact List.count_eq_one_of_mem hxy.nodup hk
      · rw [if_neg fun hand => hk hand.2]
        exact List.count_eq_zero_of_not_mem hk
    · rw [if_neg fun hand => hsx hand.1]
      refine List.count_eq_zero_of_not_mem fun hmem => ?_
      obtain ⟨k, -, hk⟩ := List.mem_map.mp hmem
      exact hsx (Prod.mk.inj hk).1.symm
  refine h.quiet (hev.mono fun _ _ hq => hq.1) hactive hactivations (fun z' hz' r hr => ?_)
    fun p hp => ?_
  · obtain ⟨z, hz, -, ⟨rfl, rfl⟩ | ⟨hne, rfl⟩⟩ := hev.earlier z' hz'
    · rw [hxy.manifest] at hr
      obtain ⟨q, hq, rfl⟩ := List.mem_map.mp hr
      rw [hid]
      by_cases hk : q.key ∈ keys
      · -- the row of a key that is recorded was claimed, so nothing had recorded it
        obtain ⟨row, hrow, hrk, hclaimed⟩ := hxy.claimed q.key hk
        have hqrow : q = row := List.inj_on_of_nodup_map (h.keys z hx) hq hrow hrk.symm
        have hzero := h.counted z hx q hq
        rw [hqrow, hclaimed, if_neg (by decide), ← hqrow] at hzero
        simp only [if_pos hk, if_true]
        show t.recorded.count (z.snapshotId, q.key) = 1
        rw [hcount, hzero, if_pos ⟨rfl, hk⟩]
      · simp only [if_neg hk]
        rw [hcount, if_neg fun hand => hk hand.2, Nat.add_zero]
        exact h.counted z hx q hq
    · rw [hcount, if_neg fun hand => hne hand.1, Nat.add_zero]
      exact h.counted z' hz r hr
  · rw [hrecorded] at hp
    rcases List.mem_append.mp hp with hp | hp
    · exact h.recorded p hp
    · obtain ⟨k, -, rfl⟩ := List.mem_map.mp hp
      exact ⟨x, hx, rfl⟩

/-! ## Beginning and aborting -/

/-- **An abort keeps the invariant.** -/
theorem Inv.abort (h : Inv s) (hx : x ∈ s.snapshots) (hstatus : x.status = .building) :
    Inv (s.modify x.snapshotId fun y => { y with status := .aborted }) ∧
      Moved s (s.modify x.snapshotId fun y => { y with status := .aborted }) := by
  have hquiet : Quiet x { x with status := .aborted } := by
    refine ⟨⟨rfl, (Marked.refl x).continues.manifest⟩, rfl, Or.inr ⟨hstatus, rfl⟩, fun _ => rfl⟩
  have hev := evolves_modify (t := s.modify x.snapshotId fun y => { y with status := .aborted }) h
    hx rfl rfl Quiet.refl hquiet
  refine h.quiet (hev.mono fun _ _ hq => hq.1) rfl rfl (fun z' hz' r hr => ?_) h.recorded
  obtain ⟨z, hz, -, ⟨rfl, rfl⟩ | ⟨-, rfl⟩⟩ := hev.earlier z' hz'
  · exact h.counted z hx r hr
  · exact h.counted z' hz r hr

/-- **A begun snapshot keeps the invariant**, if its id and its entries are new. -/
theorem Inv.begin (h : Inv s) (hid : s.find y.snapshotId = none) (hstatus : y.status = .building)
    (hkeys : (y.manifest.map fun r => r.key).Nodup)
    (hexpected : y.expectedPoints = y.manifest.length)
    (hfree : ∀ r ∈ y.manifest, r.uploaded = .free) :
    Inv { s with snapshots := s.snapshots ++ [y] } ∧
        Moved s { s with snapshots := s.snapshots ++ [y] } := by
  -- the id is new, so nothing refers to the snapshot yet
  have hnew : ∀ x ∈ s.snapshots, x.snapshotId ≠ y.snapshotId := by
    intro x hx heq
    have hnone := List.find?_eq_none.mp hid x hx
    exact hnone (decide_eq_true heq)
  have hmem : ∀ z, z ∈ s.snapshots ++ [y] ↔ z ∈ s.snapshots ∨ z = y := by simp
  have hquiet : ∀ {z}, z = y → ¬ (z.status = .active ∨ z.status = .retired) := by
    rintro z rfl hs
    rw [hstatus] at hs
    rcases hs with hs | hs <;> cases hs
  refine ⟨⟨?_, fun z hz => ?_, fun z hz => ?_, fun z hz r hr => ?_, fun p hp => ?_, fun z hz hs =>
    ?_, h.tenants, fun a ha => ?_,
    fun z hz hs => ?_, fun v hv => ?_, h.once, h.chain, h.tip⟩,
    ⟨fun x hx => ?_, fun z hz => ?_, List.prefix_rfl⟩⟩
  · show ((s.snapshots ++ [y]).map Snapshot.snapshotId).Nodup
    rw [List.map_append, List.nodup_append]
    refine ⟨h.ids, List.nodup_singleton _, fun i hi j hj => ?_⟩
    obtain ⟨x, hx, rfl⟩ := List.mem_map.mp hi
    obtain rfl := List.mem_singleton.mp hj
    exact hnew x hx
  · rcases (hmem z).mp hz with hz | rfl
    · exact h.keys z hz
    · exact hkeys
  · rcases (hmem z).mp hz with hz | rfl
    · exact h.expected z hz
    · exact hexpected
  · rcases (hmem z).mp hz with hz | rfl
    · exact h.counted z hz r hr
    · rw [hfree r hr, if_neg (by decide)]
      refine List.count_eq_zero_of_not_mem fun hrec => ?_
      obtain ⟨x, hx, hxid⟩ := h.recorded _ hrec
      exact hnew x hx hxid
  · obtain ⟨x, hx, hxid⟩ := h.recorded p hp
    exact ⟨x, (hmem x).mpr (Or.inl hx), hxid⟩
  · rcases (hmem z).mp hz with hz | hzy
    · exact h.whole z hz hs
    · exact absurd hs (hquiet hzy)
  · obtain ⟨x, hx, hxa⟩ := h.pointer a ha
    exact ⟨x, (hmem x).mpr (Or.inl hx), hxa⟩
  · rcases (hmem z).mp hz with hz | hzy
    · exact h.named z hz hs
    · exact absurd (Or.inl hs) (hquiet hzy)
  · obtain ⟨x, hx, hxv⟩ := h.activated v hv
    exact ⟨x, (hmem x).mpr (Or.inl hx), hxv⟩
  · exact ⟨x, (hmem x).mpr (Or.inl hx), (Marked.refl x).continues, Or.inl rfl, fun _ => rfl⟩
  · rcases (hmem z).mp hz with hz | rfl
    · exact Or.inl ⟨z, hz, (Marked.refl z).continues⟩
    · exact Or.inr hstatus

/-! ## Committing -/

/-- What a commit does to a snapshot: the new one is active, the one that was active is retired. -/
def Turned (s : IndexState) (x : Snapshot) (now : Str) (z z' : Snapshot) : Prop :=
  z = x ∧ z' = { x with status := .active, activatedAt := some now } ∨
    (∃ a, s.activeOf x.tenantId = some a ∧ Names a z ∧ z.status = .active) ∧
    z' = { z with status := .retired } ∨
    z ≠ x ∧ (∀ a, s.activeOf x.tenantId = some a → ¬ Names a z) ∧ z' = z

theorem Turned.continues {now : Str} (h : Turned s x now y z) : Continues y z := by
  rcases h with ⟨rfl, rfl⟩ | ⟨-, rfl⟩ | ⟨-, -, rfl⟩
  · exact ⟨rfl, (Marked.refl y).continues.manifest⟩
  · exact ⟨rfl, (Marked.refl y).continues.manifest⟩
  · exact (Marked.refl z).continues

theorem Turned.manifest_eq {now : Str} (h : Turned s x now y z) : z.manifest = y.manifest := by
  rcases h with ⟨rfl, rfl⟩ | ⟨-, rfl⟩ | ⟨-, -, rfl⟩ <;> rfl

theorem turned_activate (h : Inv s) (hx : x ∈ s.snapshots) (hstatus : x.status = .building)
    (now : Str) : Evolves (Turned s x now) s (s.activate x now) := by
  -- the snapshot that was active is another one, as `x` is being built
  have hretire : ∀ {a}, s.activeOf x.tenantId = some a → ∃ y ∈ s.snapshots, y.status = .active ∧
      Names a y ∧ y ≠ x := by
    intro a ha
    obtain ⟨y, hy, hs, hnames⟩ := h.pointer a (mem_of_activeOf ha).1
    refine ⟨y, hy, hs, hnames, ?_⟩
    rintro rfl
    rw [hstatus] at hs
    cases hs
  refine evolves_map
    (f := fun z => if z.snapshotId = x.snapshotId
      then { z with status := .active, activatedAt := some now }
      else if (s.activeOf x.tenantId).map ActiveIndex.snapshotId = some z.snapshotId
      then { z with status := .retired } else z)
    ?_ (fun z _ => ?_) fun z hz => ?_
  · cases ha : s.activeOf x.tenantId with
    | none =>
      unfold IndexState.activate IndexState.modify
      simp only [ha]
      refine List.map_congr_left fun z _ => ?_
      simp
    | some a =>
      unfold IndexState.activate IndexState.modify
      simp only [ha, List.map_map]
      obtain ⟨y, hy, -, hnames, hyx⟩ := hretire ha
      refine List.map_congr_left fun z hz => ?_
      by_cases hzx : z.snapshotId = x.snapshotId
      · have hza : z.snapshotId ≠ a.snapshotId := by
          rw [hzx, hnames.snapshotId]
          intro heq
          exact hyx (h.eq_of_id hy hx heq.symm)
        simp [hzx, hzx ▸ hza]
      · by_cases hza : z.snapshotId = a.snapshotId
        · have hax : a.snapshotId ≠ x.snapshotId := hza ▸ hzx
          simp [hza, hax]
        · have haz : a.snapshotId ≠ z.snapshotId := fun heq => hza heq.symm
          simp [hzx, hza, haz]
  · split
    · rfl
    · split <;> rfl
  · split
    · next hzx =>
      obtain rfl := h.eq_of_id hz hx hzx
      exact Or.inl ⟨rfl, rfl⟩
    · next hzx =>
      split
      · next hza =>
        obtain ⟨a, ha, haz⟩ := Option.map_eq_some_iff.mp hza
        obtain ⟨y, hy, hs, hnames, -⟩ := hretire ha
        obtain rfl := h.eq_of_id hz hy (haz.symm.trans hnames.snapshotId)
        exact Or.inr (Or.inl ⟨⟨a, ha, hnames, hs⟩, rfl⟩)
      · next hza =>
        refine Or.inr (Or.inr ⟨fun heq => hzx (by rw [heq]), fun a ha hnames => hza ?_, rfl⟩)
        rw [ha, Option.map_some, hnames.snapshotId]

/-- What the pointer of a snapshot says. -/
def Snapshot.info (x : Snapshot) (now : Str) : ActiveIndex :=
  ⟨x.tenantId, x.snapshotId, x.collectionName, x.manifestSha256, x.expectedPoints,
    x.sourceCount, now⟩

theorem mem_active_activate {now : Str} {a : ActiveIndex} :
    a ∈ (s.activate x now).active ↔ a ∈ s.active ∧ a.tenantId ≠ x.tenantId ∨ a = x.info now := by
  show a ∈ (s.active.filter fun a => decide (a.tenantId ≠ x.tenantId)) ++ [x.info now] ↔ _
  simp

theorem activeOf_activate {now tenantId : Str} : (s.activate x now).activeOf tenantId =
    if x.tenantId = tenantId then some (x.info now) else s.activeOf tenantId := by
  show ((s.active.filter fun a => decide (a.tenantId ≠ x.tenantId)) ++ [x.info now]).find? _ = _
  rw [List.find?_append, List.find?_filter]
  simp only [decide_eq_true_eq]
  by_cases htenant : x.tenantId = tenantId
  · have hnone : (s.active.find? fun a => decide (a.tenantId ≠ x.tenantId ∧ a.tenantId = tenantId))
        = none := by
      refine List.find?_eq_none.mpr fun a _ h => ?_
      obtain ⟨hne, heq⟩ := of_decide_eq_true h
      exact hne (heq.trans htenant.symm)
    rw [hnone, if_pos htenant, Option.none_or]
    exact List.find?_cons_of_pos (decide_eq_true htenant)
  · have hnone : [x.info now].find? (fun a => decide (a.tenantId = tenantId)) = none :=
      List.find?_cons_of_neg fun h => htenant (of_decide_eq_true h)
    rw [hnone, if_neg htenant, Option.or_none]
    unfold IndexState.activeOf
    congr 1
    funext a
    refine decide_eq_decide.mpr ⟨And.right, fun ha => ⟨fun heq => htenant (heq.symm.trans ha), ha⟩⟩

theorem recorded_activate {now : Str} : (s.activate x now).recorded = s.recorded := by
  unfold IndexState.activate
  cases s.activeOf x.tenantId <;> rfl

theorem activationsOf_activate {now tenantId : Str} : (s.activate x now).activationsOf tenantId =
    s.activationsOf tenantId ++ if x.tenantId = tenantId
    then [⟨x.tenantId, x.snapshotId, x.baseSnapshotId⟩] else [] := by
  show (s.activations ++ [_]).filter _ = s.activations.filter _ ++ _
  rw [List.filter_append]
  congr 1
  by_cases htenant : x.tenantId = tenantId <;> simp [htenant]

/-- **A commit keeps the invariant**: all entries are uploaded, and what was active when the
snapshot was begun is active. -/
theorem Inv.commit (h : Inv s) (hx : x ∈ s.snapshots) (hstatus : x.status = .building)
    (hwhole : ∀ r ∈ x.manifest, r.uploaded = .done)
    (hbase : (s.activeOf x.tenantId).map ActiveIndex.snapshotId = x.baseSnapshotId) (now : Str) :
    Inv (s.activate x now) ∧ Moved s (s.activate x now) := by
  have hev := turned_activate h hx hstatus now
  have hframe : ∀ {z z'}, Turned s x now z z' → z'.snapshotId = z.snapshotId :=
    fun hz => (fields_of_frame hz.continues.frame).1
  obtain ⟨x', hx', hxx'⟩ := hev.later x hx
  have hxnew : x' = { x with status := .active, activatedAt := some now } := by
    rcases hxx' with ⟨-, rfl⟩ | ⟨⟨a, -, -, hs⟩, -⟩ | ⟨hne, -⟩
    · rfl
    · rw [hstatus] at hs
      cases hs
    · exact absurd rfl hne
  subst hxnew
  obtain ⟨hids, hkeys, hexpected⟩ := h.shape hev fun _ _ hz => hz.continues
  refine ⟨⟨hids, hkeys, hexpected, fun z' hz' r hr => ?_, fun p hp => ?_, fun z' hz' hs r hr => ?_,
    ?_, fun a ha => ?_,
    fun z' hz' hs => ?_, fun v hv => ?_, ?_, fun tenantId => ?_, fun tenantId => ?_⟩,
    ⟨fun z hz => ?_, fun z' hz' => ?_, List.prefix_append _ _⟩⟩
  · obtain ⟨z, hz, hzz⟩ := hev.earlier z' hz'
    rw [hzz.manifest_eq] at hr
    rw [hframe hzz, recorded_activate]
    exact h.counted z hz r hr
  · rw [recorded_activate] at hp
    obtain ⟨z, hz, hzid⟩ := h.recorded p hp
    obtain ⟨z', hz', hzz⟩ := hev.later z hz
    exact ⟨z', hz', (hframe hzz).trans hzid⟩
  · obtain ⟨z, hz, hzz⟩ := hev.earlier z' hz'
    rw [hzz.manifest_eq] at hr
    rcases hzz with ⟨rfl, -⟩ | ⟨⟨a, -, -, hactive⟩, -⟩ | ⟨-, -, rfl⟩
    · exact hwhole r hr
    · exact h.whole z hz (Or.inl hactive) r hr
    · exact h.whole z' hz hs r hr
  · show (((s.active.filter fun a => decide (a.tenantId ≠ x.tenantId)) ++ [x.info now]).map
      ActiveIndex.tenantId).Nodup
    rw [List.map_append, List.nodup_append]
    refine ⟨h.tenants.sublist (List.filter_sublist.map _), List.nodup_singleton _,
      fun i hi j hj => ?_⟩
    obtain ⟨a, ha, rfl⟩ := List.mem_map.mp hi
    obtain rfl := List.mem_singleton.mp hj
    exact of_decide_eq_true (List.mem_filter.mp ha).2
  · rcases mem_active_activate.mp ha with ⟨hmem, htenant⟩ | rfl
    · obtain ⟨z, hz, hs, hnames⟩ := h.pointer a hmem
      obtain ⟨z', hz', hzz⟩ := hev.later z hz
      -- the snapshot of another tenant is as it was
      rcases hzz with ⟨rfl, -⟩ | ⟨⟨b, hb, hbz, -⟩, -⟩ | ⟨-, -, rfl⟩
      · rw [hstatus] at hs
        cases hs
      · refine absurd ?_ htenant
        rw [hnames.tenantId, ← hbz.tenantId, (mem_of_activeOf hb).2]
      · exact ⟨z', hz', hs, hnames⟩
    · exact ⟨_, hx', rfl, rfl, rfl, rfl, rfl, rfl, rfl, rfl⟩
  · obtain ⟨z, hz, hzz⟩ := hev.earlier z' hz'
    rcases hzz with ⟨rfl, rfl⟩ | ⟨-, rfl⟩ | ⟨-, hother, rfl⟩
    · exact ⟨z.info now, mem_active_activate.mpr (Or.inr rfl), rfl, rfl, rfl, rfl, rfl, rfl, rfl⟩
    · cases hs
    · obtain ⟨a, ha, hnames⟩ := h.named z' hz hs
      refine ⟨a, mem_active_activate.mpr (Or.inl ⟨ha, fun htenant => ?_⟩), hnames⟩
      exact hother a ((activeOf_eq_some h).mpr ⟨ha, htenant⟩) hnames
  · rcases List.mem_append.mp hv with hv | hv
    · obtain ⟨z, hz, hzid, hs⟩ := h.activated v hv
      obtain ⟨z', hz', hzz⟩ := hev.later z hz
      refine ⟨z', hz', (hframe hzz).trans hzid, ?_⟩
      rcases hzz with ⟨-, rfl⟩ | ⟨-, rfl⟩ | ⟨-, -, rfl⟩
      · exact Status.noConfusion
      · exact Status.noConfusion
      · exact hs
    · obtain rfl := List.mem_singleton.mp hv
      exact ⟨_, hx', rfl, Status.noConfusion⟩
  · show ((s.activations ++ [_]).map Activation.snapshotId).Nodup
    rw [List.map_append, List.nodup_append]
    refine ⟨h.once, List.nodup_singleton _, fun i hi j hj => ?_⟩
    obtain ⟨v, hv, rfl⟩ := List.mem_map.mp hi
    obtain rfl := List.mem_singleton.mp hj
    rintro heq
    obtain ⟨z, hz, hzid, hs⟩ := h.activated v hv
    obtain rfl := h.eq_of_id hz hx (hzid.trans heq)
    exact hs hstatus
  · rw [activationsOf_activate]
    by_cases htenant : x.tenantId = tenantId
    · rw [if_pos htenant, linked_concat]
      refine ⟨h.chain tenantId, ?_⟩
      rw [h.tip tenantId, ← htenant, hbase]
    · rw [if_neg htenant, List.append_nil]
      exact h.chain tenantId
  · rw [activationsOf_activate, activeOf_activate]
    by_cases htenant : x.tenantId = tenantId
    · rw [if_pos htenant, if_pos htenant, tip_concat]
      rfl
    · rw [if_neg htenant, if_neg htenant, List.append_nil]
      exact h.tip tenantId
  · obtain ⟨z', hz', hzz⟩ := hev.later z hz
    refine ⟨z', hz', hzz.continues, ?_, fun _ => hzz.manifest_eq⟩
    rcases hzz with ⟨rfl, rfl⟩ | ⟨⟨a, -, -, hs⟩, rfl⟩ | ⟨-, -, rfl⟩
    · right
      rw [hstatus]
      simp [Status.next]
    · right
      rw [hs]
      simp [Status.next]
    · exact Or.inl rfl
  · obtain ⟨z, hz, hzz⟩ := hev.earlier z' hz'
    exact Or.inl ⟨z, hz, hzz.continues⟩

/-! ## One transaction -/

theorem normalizeFrom_keys {repr : PyVal → Str} : ∀ {raw : List RawEntry} {seen : List Key}
    {entries : List ManifestEntry}, normalizeFrom repr seen raw = .ok entries →
      (entries.map ManifestEntry.key).Nodup ∧ ∀ e ∈ entries, e.key ∉ seen
  | [], _, _, h => by
    obtain rfl := Except.ok.inj h
    exact ⟨List.nodup_nil, fun _ he => (by cases he)⟩
  | raw :: rest, seen, entries, h => by
    obtain ⟨entry, -, h⟩ := bind_eq_ok.mp h
    obtain ⟨_, hseen, h⟩ := bind_eq_ok.mp h
    obtain ⟨tail, htail, h⟩ := bind_eq_ok.mp h
    obtain rfl := Except.ok.inj h
    obtain ⟨hnodup, hnot⟩ := normalizeFrom_keys htail
    refine ⟨?_, fun e he => ?_⟩
    · rw [List.map_cons, List.nodup_cons]
      refine ⟨fun hmem => ?_, hnodup⟩
      obtain ⟨e, he, hkey⟩ := List.mem_map.mp hmem
      exact hnot e he (by rw [hkey]; exact List.mem_cons_self)
    · rcases List.mem_cons.mp he with rfl | he
      · exact raiseIf_eq_ok.mp hseen
      · exact fun hmem => hnot e he (List.mem_cons_of_mem _ hmem)

/-- No two entries of a manifest have one key. -/
theorem normalizeManifest_keys {repr : PyVal → Str} {raw : List RawEntry}
    {entries : List ManifestEntry}
    (h : normalizeManifest repr raw = .ok entries) : (entries.map ManifestEntry.key).Nodup := by
  obtain ⟨unsorted, hfrom, h⟩ := bind_eq_ok.mp h
  obtain ⟨_, -, h⟩ := bind_eq_ok.mp h
  obtain ⟨_, -, h⟩ := bind_eq_ok.mp h
  obtain rfl := Except.ok.inj h
  have hperm : (sortEntries unsorted).Perm unsorted := List.mergeSort_perm unsorted _
  exact (hperm.map ManifestEntry.key).nodup_iff.mpr (normalizeFrom_keys hfrom).1

variable {P : Platform} {repr : PyVal → Str}

/-- A snapshot that is begun is new, and based on what is active. -/
theorem beginSnapshot_eq_ok {call : BeginCall} (h : beginSnapshot P repr s call = .ok (t, x)) :
    t = { s with snapshots := s.snapshots ++ [x] } ∧ s.find call.uuid = none ∧
    x.snapshotId = call.uuid ∧
      x.tenantId = call.tenantId ∧
      x.baseSnapshotId = (s.activeOf call.tenantId).map ActiveIndex.snapshotId ∧
      x.status = .building ∧ (x.manifest.map fun r => r.key).Nodup ∧
        x.expectedPoints = x.manifest.length ∧
      ∀ r ∈ x.manifest, r.uploaded = .free := by
  obtain ⟨_, -, h⟩ := bind_eq_ok.mp h
  obtain ⟨entries, hentries, h⟩ := bind_eq_ok.mp h
  obtain ⟨_, -, h⟩ := bind_eq_ok.mp h
  obtain ⟨_, -, h⟩ := bind_eq_ok.mp h
  obtain ⟨digest, -, h⟩ := bind_eq_ok.mp h
  obtain ⟨_, -, h⟩ := bind_eq_ok.mp h
  obtain ⟨_, hnew, h⟩ := bind_eq_ok.mp h
  obtain ⟨rfl, rfl⟩ := Prod.mk.inj (Except.ok.inj h)
  rw [raiseIf_eq_ok, Option.isSome_iff_ne_none, not_not] at hnew
  refine ⟨rfl, hnew, rfl, rfl, rfl, rfl, ?_, ?_, fun r hr => ?_⟩
  · rw [List.map_map]
    exact normalizeManifest_keys hentries
  · exact (List.length_map _).symm
  · obtain ⟨e, -, rfl⟩ := List.mem_map.mp hr
    rfl

/-- A commit that goes through. -/
theorem commitSnapshot_eq_ok {snapshotId tenantId now : Str} {points : Int}
    (h : commitSnapshot s snapshotId tenantId points now = .ok t) : ∃ x ∈ s.snapshots,
    x.snapshotId = snapshotId ∧ x.tenantId = tenantId ∧ x.status = .building ∧
      (x.manifest.filter fun r => decide (r.uploaded = .done)).length = x.expectedPoints ∧
      (s.activeOf tenantId).map ActiveIndex.snapshotId = x.baseSnapshotId ∧
          t = s.activate x now := by
  unfold commitSnapshot at h
  cases hget : s.getSnapshot snapshotId tenantId with
  | none =>
    rw [hget] at h
    cases h
  | some x =>
    rw [hget] at h
    obtain ⟨hx, hid, htenant⟩ := getSnapshot_eq_some hget
    obtain ⟨_, hstatus, h⟩ := bind_eq_ok.mp h
    obtain ⟨_, hcounts, h⟩ := bind_eq_ok.mp h
    obtain ⟨_, hbase, h⟩ := bind_eq_ok.mp h
    rw [raiseIf_eq_ok, not_not] at hstatus hbase
    rw [raiseIf_eq_ok, not_or, not_not] at hcounts
    exact ⟨x, hx, hid, htenant, hstatus, hcounts.1, hbase, (Except.ok.inj h).symm⟩

theorem whole_of_counts (h : Inv s) (hx : x ∈ s.snapshots)
    (hcount : (x.manifest.filter fun r => decide (r.uploaded = .done)).length = x.expectedPoints) :
    ∀ r ∈ x.manifest, r.uploaded = .done := by
  rw [h.expected x hx, List.length_filter_eq_length_iff] at hcount
  exact fun r hr => of_decide_eq_true (hcount r hr)

/-- What does not touch the tables keeps the invariant. -/
theorem Inv.idle (h : Inv s) (batches : List (Str × List Key)) :
    Inv { s with validated := batches } ∧ Moved s { s with validated := batches } :=
  h.quiet ⟨rfl, fun x hx => ⟨x, hx, .refl x⟩, fun x hx => ⟨x, hx, .refl x⟩⟩ rfl rfl h.counted
    h.recorded

theorem reserveBatch_inv (h : Inv s) {snapshotId : Str} {keys claimed : List Key}
    (hreserve : reserveBatch s snapshotId keys = .ok (t, claimed)) : Inv t ∧ Moved s t := by
  unfold reserveBatch at hreserve
  cases hfind : s.find snapshotId with
  | none =>
    simp only [hfind] at hreserve
    split at hreserve
    · obtain ⟨rfl, -⟩ := Prod.mk.inj (Except.ok.inj hreserve)
      exact h.idle _
    · cases hreserve
  | some x =>
    simp only [hfind] at hreserve
    obtain ⟨⟨y, claimed'⟩, hall, hreserve⟩ := bind_eq_ok.mp hreserve
    obtain ⟨rfl, -⟩ := Prod.mk.inj (Except.ok.inj hreserve)
    obtain ⟨hx, rfl⟩ := find_eq_some hfind
    have hmarked := reserveAll_marked hall
    exact h.marked ((evolves_modify h hx rfl hmarked.snapshotId Marked.refl hmarked).mono
      fun _ _ hm => hm.1) rfl rfl rfl

theorem releaseBatch_inv (h : Inv s) (snapshotId : Str) (keys : List Key) :
    Inv (releaseBatch s snapshotId keys) ∧ Moved s (releaseBatch s snapshotId keys) := by
  refine h.marked (evolves_map rfl (fun z _ => ?_) fun z _ => ?_) rfl rfl rfl
  · split
    · exact (release_marked z keys).snapshotId
    · rfl
  · split
    · exact release_marked z keys
    · exact .refl z

theorem recordUploaded_inv (h : Inv s) {snapshotId tenantId : Str} {keys : List Key}
    (hrecord : recordUploaded s snapshotId tenantId keys = .ok t) : Inv t ∧ Moved s t := by
  unfold recordUploaded at hrecord
  cases hget : s.getSnapshot snapshotId tenantId with
  | none =>
    rw [hget] at hrecord
    cases hrecord
  | some x =>
    rw [hget] at hrecord
    obtain ⟨hx, rfl, -⟩ := getSnapshot_eq_some hget
    obtain ⟨_, hstatus, hrecord⟩ := bind_eq_ok.mp hrecord
    obtain ⟨y, hall, hrecord⟩ := bind_eq_ok.mp hrecord
    rw [raiseIf_eq_ok, not_not] at hstatus
    obtain rfl := Except.ok.inj hrecord
    exact h.record hx hstatus (recordAll_spec (h.keys x hx) hall) rfl rfl rfl rfl

theorem abortSnapshot_inv (h : Inv s) {snapshotId tenantId : Str} {row : Option Snapshot}
    (habort : abortSnapshot s snapshotId tenantId = .ok (t, row)) : Inv t ∧ Moved s t := by
  unfold abortSnapshot at habort
  cases hget : s.getSnapshot snapshotId tenantId with
  | none =>
    rw [hget] at habort
    obtain ⟨rfl, -⟩ := Prod.mk.inj (Except.ok.inj habort)
    exact h.idle _
  | some x =>
    simp only [hget] at habort
    split at habort
    · obtain ⟨rfl, -⟩ := Prod.mk.inj (Except.ok.inj habort)
      exact h.idle _
    · obtain ⟨hx, rfl, -⟩ := getSnapshot_eq_some hget
      obtain ⟨_, hstatus, habort⟩ := bind_eq_ok.mp habort
      rw [raiseIf_eq_ok, not_not] at hstatus
      obtain ⟨rfl, -⟩ := Prod.mk.inj (Except.ok.inj habort)
      exact h.abort hx hstatus

/-- **Every transaction keeps the invariant.** -/
theorem Inv.step (h : Inv s) {e : Event} (hstep : step P repr s e = some t) :
    Inv t ∧ Moved s t := by
  unfold Rag.step at hstep
  cases hrun : e.run P repr s with
  | error err =>
    rw [hrun] at hstep
    obtain rfl := Option.some.inj hstep
    exact h.idle _
  | ok u =>
    rw [hrun] at hstep
    obtain rfl := Option.some.inj hstep
    cases e with
    | begin call =>
      obtain ⟨⟨t, x⟩, hbegin, rfl⟩ := map_eq_ok.mp hrun
      obtain ⟨rfl, hnew, hid, -, -, hstatus, hkeys, hexpected, hfree⟩ := beginSnapshot_eq_ok hbegin
      exact h.begin (hid ▸ hnew) hstatus hkeys hexpected hfree
    | validate snapshotId tenantId docs =>
      obtain ⟨checked, -, rfl⟩ := map_eq_ok.mp hrun
      exact h.idle _
    | reserve i =>
      unfold Event.run at hrun
      cases hi : s.validated[i]? with
      | none =>
        simp only [hi] at hrun
        obtain rfl := Except.ok.inj hrun
        exact h.idle _
      | some batch =>
        obtain ⟨snapshotId, keys⟩ := batch
        simp only [hi] at hrun
        obtain ⟨⟨t, claimed⟩, hreserve, rfl⟩ := map_eq_ok.mp hrun
        obtain ⟨hinv, hkept, hbegun, hactivations⟩ :=
          reserveBatch_inv (h.idle (s.validated.eraseIdx i)).1 hreserve
        exact ⟨hinv, hkept, hbegun, hactivations⟩
    | record snapshotId tenantId keys => exact recordUploaded_inv h hrun
    | release snapshotId keys =>
      obtain rfl := Except.ok.inj hrun
      exact releaseBatch_inv h snapshotId keys
    | commit snapshotId tenantId points now =>
      obtain ⟨x, hx, -, rfl, hstatus, hcounts, hbase, rfl⟩ := commitSnapshot_eq_ok hrun
      exact h.commit hx hstatus (whole_of_counts h hx hcounts) hbase now
    | abort snapshotId tenantId =>
      obtain ⟨⟨t, row⟩, habort, rfl⟩ := map_eq_ok.mp hrun
      exact abortSnapshot_inv h habort

/-- Only a commit moves a pointer, and only that of its tenant. -/
theorem step_tables {e : Event} (hstep : step P repr s e = some t) : t.active = s.active ∧
    t.managed = s.managed ∨ ∃ x points now, e = .commit x.snapshotId x.tenantId points now ∧
      commitSnapshot s x.snapshotId x.tenantId points now = .ok t ∧ t = s.activate x now := by
  unfold step at hstep
  cases hrun : e.run P repr s with
  | error err =>
    rw [hrun] at hstep
    obtain rfl := Option.some.inj hstep
    exact Or.inl ⟨rfl, rfl⟩
  | ok u =>
    rw [hrun] at hstep
    obtain rfl := Option.some.inj hstep
    cases e with
    | begin call =>
      obtain ⟨⟨t, x⟩, hbegin, rfl⟩ := map_eq_ok.mp hrun
      obtain ⟨rfl, -⟩ := beginSnapshot_eq_ok hbegin
      exact Or.inl ⟨rfl, rfl⟩
    | validate snapshotId tenantId docs =>
      obtain ⟨checked, -, rfl⟩ := map_eq_ok.mp hrun
      exact Or.inl ⟨rfl, rfl⟩
    | reserve i =>
      unfold Event.run at hrun
      cases hi : s.validated[i]? with
      | none =>
        simp only [hi] at hrun
        obtain rfl := Except.ok.inj hrun
        exact Or.inl ⟨rfl, rfl⟩
      | some batch =>
        obtain ⟨snapshotId, keys⟩ := batch
        simp only [hi] at hrun
        obtain ⟨⟨t, claimed⟩, hreserve, rfl⟩ := map_eq_ok.mp hrun
        unfold reserveBatch at hreserve
        split at hreserve
        · split at hreserve
          · obtain ⟨rfl, -⟩ := Prod.mk.inj (Except.ok.inj hreserve)
            exact Or.inl ⟨rfl, rfl⟩
          · cases hreserve
        · obtain ⟨⟨y, claimed'⟩, -, hreserve⟩ := bind_eq_ok.mp hreserve
          obtain ⟨rfl, -⟩ := Prod.mk.inj (Except.ok.inj hreserve)
          exact Or.inl ⟨rfl, rfl⟩
    | record snapshotId tenantId keys =>
      have hrecord : recordUploaded s snapshotId tenantId keys = .ok u := hrun
      unfold recordUploaded at hrecord
      split at hrecord
      · cases hrecord
      · obtain ⟨_, -, hrecord⟩ := bind_eq_ok.mp hrecord
        obtain ⟨y, -, hrecord⟩ := bind_eq_ok.mp hrecord
        obtain rfl := Except.ok.inj hrecord
        exact Or.inl ⟨rfl, rfl⟩
    | release snapshotId keys =>
      obtain rfl := Except.ok.inj hrun
      exact Or.inl ⟨rfl, rfl⟩
    -- the one event that moves a pointer
    | commit snapshotId tenantId points now =>
      obtain ⟨x, -, rfl, rfl, -, -, -, ht⟩ := commitSnapshot_eq_ok hrun
      exact Or.inr ⟨x, points, now, rfl, hrun, ht⟩
    | abort snapshotId tenantId =>
      obtain ⟨⟨t, row⟩, habort, rfl⟩ := map_eq_ok.mp hrun
      unfold abortSnapshot at habort
      split at habort
      · obtain ⟨rfl, -⟩ := Prod.mk.inj (Except.ok.inj habort)
        exact Or.inl ⟨rfl, rfl⟩
      · split at habort
        · obtain ⟨rfl, -⟩ := Prod.mk.inj (Except.ok.inj habort)
          exact Or.inl ⟨rfl, rfl⟩
        · obtain ⟨_, -, habort⟩ := bind_eq_ok.mp habort
          obtain ⟨rfl, -⟩ := Prod.mk.inj (Except.ok.inj habort)
          exact Or.inl ⟨rfl, rfl⟩

/-- A tenant that has a snapshot once has one for good. -/
theorem managed_activate {now : Str} : (s.activate x now).managed =
    if s.managed.any (fun m => m.1 = x.tenantId) then s.managed else s.managed ++
    [(x.tenantId, now)] := by
  unfold IndexState.activate
  cases s.activeOf x.tenantId <;> rfl

/-! ## Runs -/

theorem Continues.trans (h : Continues x y) (h' : Continues y z) : Continues x z where
  frame := h'.frame.trans h.frame
  manifest := by
    have hcomp := List.forall₂_iff_get.mp h.manifest
    have hcomp' := List.forall₂_iff_get.mp h'.manifest
    refine List.forall₂_iff_get.mpr ⟨hcomp.1.trans hcomp'.1, fun i hi hi' => ?_⟩
    have hmid : i < y.manifest.length := hcomp.1 ▸ hi
    obtain ⟨hentry, hdone⟩ := hcomp.2 i hi hmid
    obtain ⟨hentry', hdone'⟩ := hcomp'.2 i hmid hi'
    exact ⟨hentry'.trans hentry, fun h => hdone' (hdone h)⟩

/-- From one state of a run to a later one. -/
theorem run_continues (h : Inv s) {es : List Event}
    (hrun : Machine.run (step P repr) s es = some t) :
    Inv t ∧ s.activations <+: t.activations ∧ ∀ x ∈ s.snapshots, ∃ y ∈ t.snapshots,
    Continues x y := by
  refine Machine.run_induction
    (P := fun _ t => Inv t ∧ s.activations <+: t.activations ∧ ∀ x ∈ s.snapshots, ∃ y ∈ t.snapshots,
      Continues x y)
    ⟨h, List.prefix_rfl, fun x hx => ⟨x, hx, (Marked.refl x).continues⟩⟩ ?_ hrun
  rintro es u e v - ⟨hu, hgrown, hkept⟩ hstep
  obtain ⟨hv, hmoved⟩ := hu.step hstep
  refine ⟨hv, hgrown.trans hmoved.activations, fun x hx => ?_⟩
  obtain ⟨y, hy, hxy⟩ := hkept x hx
  obtain ⟨z, hz, hyz, -⟩ := hmoved.kept y hy
  exact ⟨z, hz, hxy.trans hyz⟩

/-- A list that is a prefix of another, with no entry twice and one tip, is that list. -/
theorem activations_eq {older newer : List Activation} (hgrown : older <+: newer)
    (honce : (newer.map Activation.snapshotId).Nodup)
    (htip : tip (fun v : Activation => some v.snapshotId) none older =
      tip (fun v : Activation => some v.snapshotId) none newer) :
    newer = older := by
  obtain ⟨rest, rfl⟩ := hgrown
  rcases List.eq_nil_or_concat rest with rfl | ⟨front, last, rfl⟩
  · exact List.append_nil older
  · rw [List.concat_eq_append, ← List.append_assoc] at htip honce
    rw [tip_concat] at htip
    rcases tip_mem (fun v : Activation => some v.snapshotId) none older with ⟨hnone, -⟩
      | ⟨v, hv, hvtip⟩
    · rw [hnone] at htip
      cases htip
    · rw [List.map_append, List.nodup_append] at honce
      refine absurd ?_
        (honce.2.2 v.snapshotId (List.mem_map_of_mem (List.mem_append_left _ hv)) last.snapshotId
          (by simp))
      exact Option.some.inj (hvtip.trans htip)

/-- A snapshot that is committed at the end of a run was begun when what is active now was active,
and no other activation of the tenant has gone through between. -/
def Based (P : Platform) (repr : PyVal → Str) (es : List Event) (s : IndexState) : Prop :=
  ∀ fs call gs u, es = fs ++ .begin call :: gs →
    Machine.run (step P repr) IndexState.empty fs = some u →
    ∀ begun, beginSnapshot P repr u call = .ok begun →
      ∀ tenantId points now t, commitSnapshot s call.uuid tenantId points now = .ok t →
        tenantId = call.tenantId ∧ s.activationsOf tenantId = u.activationsOf tenantId ∧
          (s.activeOf tenantId).map ActiveIndex.snapshotId =
          (u.activeOf tenantId).map ActiveIndex.snapshotId

/-- **The snapshots of every run**: the tables tell one story after every transaction; a transaction
moves a snapshot along its life only, and changes nothing of one that is active or retired; and a
commit goes through on the base its snapshot was begun on. -/
theorem run_snapshots {es : List Event}
    (hrun : Machine.run (step P repr) IndexState.empty es = some s) :
    Consistent s ∧ (∀ e t, step P repr s e = some t → Moved s t) ∧ Based P repr es s := by
  have hs := (run_continues inv_empty hrun).1
  refine ⟨hs.consistent, fun e t hstep => (hs.step hstep).2, ?_⟩
  rintro fs call gs u rfl hfs ⟨v, x⟩ hbegin tenantId points now t hcommit
  obtain ⟨hu, -⟩ := run_continues inv_empty hfs
  have hevent : (Event.begin call).run P repr u = .ok v := map_eq_ok.mpr ⟨(v, x), hbegin, rfl⟩
  have hstep : step P repr u (.begin call) = some v := by
    unfold step
    rw [hevent]
  obtain ⟨hv, hmoved⟩ := hu.step hstep
  obtain ⟨hveq, -, hid, htenant, hbase, -⟩ := beginSnapshot_eq_ok hbegin
  have hgs : Machine.run (step P repr) v gs = some s := by
    rw [Machine.run_append, hfs, Option.bind_some, Machine.run_cons, hstep, Option.bind_some]
      at hrun
    exact hrun
  obtain ⟨-, hgrown, hkept⟩ := run_continues hv hgs
  -- the snapshot that is committed is the one that was begun
  have hxv : x ∈ v.snapshots := by
    rw [hveq]
    exact List.mem_append_right _ (List.mem_singleton_self x)
  obtain ⟨y, hy, hxy⟩ := hkept x hxv
  obtain ⟨hyid, hytenant, -, -, -, -, hybase⟩ := fields_of_frame hxy.frame
  obtain ⟨z, hz, hzid, hztenant, -, -, hzbase, -⟩ := commitSnapshot_eq_ok hcommit
  obtain rfl : z = y := hs.eq_of_id hz hy (by rw [hzid, hyid, hid])
  have hsame : tenantId = call.tenantId := by rw [← hztenant, hytenant, htenant]
  have hactive : (s.activeOf tenantId).map ActiveIndex.snapshotId =
      (u.activeOf tenantId).map ActiveIndex.snapshotId := by
    rw [hzbase, hybase, hbase, hsame]
  refine ⟨hsame, activations_eq ?_ ?_ ?_, hactive⟩
  · exact (hmoved.activations.trans hgrown).filter _
  · exact hs.once.sublist (List.filter_sublist.map _)
  · rw [hu.tip, hs.tip, hactive]

/-- A platform for the examples: every hash is zero. -/
def zeroHashes : Platform := ⟨KeySort.insertion, fun _ => List.replicate 32 0⟩

/-- One chunk, from its manifest to the commit. -/
def loneBuild : List Event :=
  let zeros : PyVal := .str (List.replicate 64 48)
  [.begin ⟨lit "t", [⟨.str (lit "a"), .int 0, zeros, zeros⟩], false, none, lit "s", lit "now"⟩,
    .validate (lit "s") (lit "t") [⟨.str (lit "a"), .int 0, some (.str (lit "x")), zeros⟩],
    .reserve 0,
    .record (lit "s") (lit "t") [(lit "a", 0)], .commit (lit "s") (lit "t") 1 (lit "now")]

theorem run_snapshots_lone : ∃ s, Machine.run (step zeroHashes fun _ => []) IndexState.empty
    loneBuild = some s ∧
    s.active.length = 1 ∧ Consistent s ∧
    (∀ e t, step zeroHashes (fun _ => []) s e = some t → Moved s t) ∧
      Based zeroHashes (fun _ => []) loneBuild s := by
  have hactive : (Machine.run (step zeroHashes fun _ => []) IndexState.empty loneBuild).map
    (fun s => s.active.length) = some 1 := by
    decide +kernel
  obtain ⟨s, hs, hlength⟩ := Option.map_eq_some_iff.mp hactive
  exact ⟨s, hs, hlength, run_snapshots hs⟩

end Rag
