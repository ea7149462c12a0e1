import Msb.Rag.Search
import Msb.Rag.SnapshotMachine

/-!
# Verified search

A search that returns verified results has seen the pointer of the tenant twice, with the validation
of the hits between the two looks, and has then compared the manifest with the source tree. Nobody
looks at the pointer after the tree: a commit in between, and the search vouches for a snapshot that
is not active any more.

* `run_verified_search` — what holds at the last check of a search, in every world that commits
  nothing for the tenant between the second look at the pointer and that check
-/

namespace Rag

open Py Ledger Machine Retrieval

section

variable {F : Type}

/-! ## The world moves -/

/-- A transaction on the tables, or an edit of the source tree. -/
inductive WorldEvent where
  | transaction (e : Event)
  | edit (tree : SourceTree)

variable (S : Server F)

def worldStep (w : World) : WorldEvent → Option World
  | .transaction e => (step S.platform S.repr w.index e).map fun index => { w with index := index }
  | .edit tree => some { w with tree := tree }

def World.empty (tree : SourceTree) : World := ⟨.empty, tree⟩

/-- A search that runs while the world moves. -/
abbrev Searching (F : Type) :=
  Moving (SearchCall F) (fun c => Except HttpError c.Reply)
    (Except HttpError (SearchResponse F) × Unit) (World)

def Searching.start (request : SearchRequest) (w : World) : Searching F :=
  ⟨w, ragSearch request (), []⟩

def searchStep : Searching F → Motion WorldEvent (SearchEnv F) → Option (Searching F) :=
  movingStep (worldStep S) (SearchCall.answer S)

/-! ## What is claimed -/

/-- The hit is an entry of the manifest: its source, its chunk and the hash of its text. -/
def InManifest (x : Snapshot) (hit : Hit F) : Prop :=
  ∃ r ∈ x.manifest, hit.key S = some r.key ∧
    ∃ bytes, encode (str S.toEnv hit.text) = some bytes ∧
    r.contentSha256 = S.platform.hexdigest bytes

/-- The hits are in the manifest of the active snapshot, and the manifest is that of the source
tree. -/
def Verified (w : World) (tenantId : Str) (hits : List (Hit F)) : Prop :=
  ∃ a x, w.index.activeOf tenantId = some a ∧ x ∈ w.index.snapshots ∧ a.snapshotId = x.snapshotId ∧
    x.status = .active ∧ (∀ hit ∈ hits, InManifest S x hit) ∧
    ∃ actual, treeManifest S.platform w.tree = .ok actual ∧
      SameManifest (x.manifest.map ManifestRow.toManifestEntry) actual

/-- The last answer is that of the second look at the pointer. -/
def AwaitsCheck (s : Searching F) : Prop :=
  ∃ before tenantId latest, s.replies = before ++ [⟨.activeSnapshot tenantId, latest⟩] ∧ before ≠ []

/-- No commit of the tenant goes through between the second look at the pointer and the last check.
-/
def Calm (tenantId : Str) (s : Searching F) : Motion WorldEvent (SearchEnv F) → Prop
  | .move (.transaction (.commit snapshotId tenantId' points now)) =>
    tenantId' = tenantId →
      (∃ t, commitSnapshot s.world.index snapshotId tenantId points now = .ok t) → ¬ AwaitsCheck s
  | _ => True

/-! ## Stages of a search -/

inductive Stage (F : Type) where
  | start
  | opened (active : Option ActiveState)
  /-- The tenant had no snapshots. -/
  | legacy
  | checked (active : ActiveState) (hits : List (Hit F))
  | confirmed (active : ActiveState) (hits : List (Hit F))
  | current (active : ActiveState) (hits : List (Hit F))
  | over

/-- The calls of the stages in which the order matters. -/
def Stage.Allows (tenantId : Str) : Stage F → SearchCall F → Prop
  | .start, c => c = .activeSnapshot tenantId
  | .opened none, c => c = .tenantIsManaged tenantId
  | .opened (some a), c =>
    ∀ id tenant hits, c = .validateHits id tenant hits → id = a.snapshotId ∧ tenant = tenantId
  | .legacy, _ => True
  | .checked _ _, c => c = .activeSnapshot tenantId
  | .confirmed a _, c => c = .matchesRoot a
  | _, _ => False

/-- After the question whether the tenant has snapshots. -/
def Stage.ofManaged (managed : Bool) : Stage F := if managed = true then .opened none else .legacy

/-- After the second look at the pointer. -/
def Stage.ofPointer (a : ActiveState) (hits : List (Hit F)) (latest : Option ActiveState) :
    Stage F :=
  if latest.map (fun b => b.snapshotId) = some a.snapshotId then .confirmed a hits else .over

/-- After the last check. -/
def Stage.ofChanged (a : ActiveState) (hits : List (Hit F)) (changed : List Str) : Stage F :=
  if changed = [] then .current a hits else .over

def Stage.next : Stage F → (c : SearchCall F) → Except HttpError c.Reply → Stage F
  | .start, .activeSnapshot _, .ok active => .opened active
  | .opened none, .tenantIsManaged _, .ok managed => .ofManaged managed
  | .opened (some a), .validateHits _ _ hits, .ok _ => .checked a hits
  | .opened active, _, _ => .opened active
  | .legacy, _, _ => .legacy
  | .checked a hits, .activeSnapshot _, .ok latest => .ofPointer a hits latest
  | .confirmed a hits, .matchesRoot _, .ok changed => .ofChanged a hits changed
  | _, _, _ => .over

def searchProtocol (tenantId : Str) : Protocol (SearchCall F) (fun c => Except HttpError c.Reply)
    (Stage F) where
  allowed := Stage.Allows tenantId
  next := Stage.next

/-- What a response tells of the stage that it comes from. -/
def Told (response : SearchResponse F) (t : Stage F) : Prop :=
  (response.indexStatus = .verifiedCurrent ∧ ∃ a, t = .current a response.results) ∨
    (response.indexStatus = .notYetPublished ∧ response.results = []) ∨ t = .legacy

end

/-! ## The program keeps to the stages -/

section

variable {F : Type} {tenantId : Str}

abbrev Follows (tenantId : Str) {α : Type} (act : SearchAct F α) (t : Stage F)
    (Q : Except HttpError α → Stage F → Prop) : Prop :=
  act.Ensures (searchProtocol tenantId) () t fun out _ t => Q out t

variable {t : Stage F} {a : ActiveState}

theorem follows_bind {α β : Type} {act : SearchAct F α} {f : α → SearchAct F β}
    {Q : Except HttpError β → Stage F → Prop}
    (h : Follows tenantId act t fun out t => (∀ v, out = .ok v → Follows tenantId (f v) t Q) ∧
      ∀ e, out = .error e → Q (.error e) t) :
    Follows tenantId (act >>= f) t Q :=
  Act.ensures_bind h

variable {c : SearchCall F}

theorem follows_ask {Q : Except HttpError c.Reply → Stage F → Prop} (hc : t.Allows tenantId c)
    (h : ∀ answer, Q answer (t.next c answer)) : Follows tenantId (ask c) t Q :=
  Act.ensures_call hc h

theorem follows_failIf {c : Prop} [Decidable c] {e : HttpError} {Q : Except HttpError Unit →
    Stage F → Prop}
    (hfail : c → Q (.error e) t) (hpass : ¬ c → Q (.ok ()) t) :
    Follows tenantId (failIf c e) t Q := by
  refine Act.ensures_lift ?_
  split
  · next hc => exact hfail hc
  · next hc => exact hpass hc

theorem follows_mapRaised {α : Type} {f : HttpError → HttpError} {act : SearchAct F α}
    {Q : Except HttpError α → Stage F → Prop}
    (h : Follows tenantId act t fun out t => (∀ v, out = .ok v → Q (.ok v) t) ∧
      ∀ e, out = .error e → Q (.error (f e)) t) :
    Follows tenantId (mapRaised f act) t Q :=
  Act.ensures_tryCatch
    (h.mono fun _ _ _ hout => ⟨hout.1, fun e he => Act.ensures_lift (hout.2 e he)⟩)

theorem follows_pure {α : Type} {v : α} {Q : Except HttpError α → Stage F → Prop}
    (h : Q (.ok v) t) : Follows tenantId (pure v) t Q :=
  h

/-- A call that leaves the stage as it is. -/
theorem follows_opened {active : Option ActiveState} (hc : (Stage.opened active).Allows tenantId c)
    (hnext : ∀ answer, (Stage.opened active).next c answer = .opened active) :
    Follows tenantId (ask c) (.opened active) fun _ t => t = .opened active :=
  follows_ask hc hnext

theorem allows_other {active : ActiveState}
    (h : ∀ id tenant hits, c ≠ .validateHits id tenant hits) :
    (Stage.opened (some active)).Allows tenantId c :=
    fun id tenant hits hc => absurd hc (h id tenant hits)

theorem openCollection_follows {name : Str} :
    Follows tenantId (openCollection name : SearchAct F Unit) (.opened (some a))
    fun _ t => t = .opened (some a) := by
  refine follows_mapRaised
    ((follows_opened (allows_other fun _ _ _ => by simp) fun answer => rfl).mono ?_)
  exact fun _ _ _ ht => ⟨fun _ _ => ht, fun _ _ => ht⟩

theorem checkBefore_follows : Follows tenantId (checkBefore a : SearchAct F Unit) (.opened (some a))
    fun out t => t = .opened (some a) ∧ (out = .ok () → a.verifySources = true) := by
  refine follows_bind (follows_failIf (fun _ => ⟨by simp, fun _ _ => ⟨rfl, by simp⟩⟩) fun _ =>
    ⟨fun _ _ => ?_, by simp⟩)
  refine follows_bind (follows_failIf (fun _ => ⟨by simp, fun _ _ => ⟨rfl, by simp⟩⟩) fun hverify =>
    ⟨fun _ _ => ?_, by simp⟩)
  have hverify : a.verifySources = true := by simpa using hverify
  refine follows_bind
    (follows_mapRaised
      ((follows_opened (allows_other fun _ _ _ => by simp) fun answer => rfl).mono ?_))
  rintro out _ t rfl
  refine ⟨fun changed _ => ⟨fun _ _ => ?_, by simp⟩, fun e _ =>
    ⟨by simp, fun _ _ => ⟨rfl, by simp⟩⟩⟩
  exact follows_failIf (fun _ => ⟨rfl, by simp⟩) fun _ => ⟨rfl, fun _ => hverify⟩

/-- A stage in which everything is allowed. -/
theorem legacy_follows {α : Type} (act : SearchAct F α) :
    Follows tenantId act .legacy fun _ t => t = .legacy := by
  have hall : act.All fun _ => True := fun x => (act x).all_true
  exact hall.ensures (I := fun t => t = .legacy)
    (fun _ _ ht _ => by subst ht; exact ⟨trivial, fun _ => rfl⟩) rfl fun _ _ _ ht => ht

/-- What the checks after the query have seen, where they pass. -/
theorem checkAfter_follows {results : List (Hit F)} (hverify : a.verifySources = true) :
    Follows tenantId (checkAfter tenantId a results) (.opened (some a)) fun out t => out = .ok () →
    t = .current a results := by
  refine follows_mapRaised ?_
  refine follows_bind (follows_failIf (fun _ => ⟨by simp, by simp⟩) fun _ =>
    ⟨fun _ _ => ?_, by simp⟩)
  refine follows_bind (follows_ask (fun id tenant hits hc => ?_) fun answer =>
    ⟨fun _ hvalid => ?_, by simp⟩)
  · obtain ⟨rfl, rfl, -⟩ := SearchCall.validateHits.inj hc
    exact ⟨rfl, rfl⟩
  · subst hvalid
    show Follows tenantId _ (.checked a results) _
    refine follows_bind (follows_ask rfl fun answer => ⟨fun latest hlatest => ?_, by simp⟩)
    subst hlatest
    show Follows tenantId _ (.ofPointer a results latest) _
    refine follows_bind (follows_failIf (fun _ => ⟨by simp, by simp⟩) fun hpointer =>
      ⟨fun _ _ => ?_, by simp⟩)
    have hstage : Stage.ofPointer a results latest = .confirmed a results :=
      if_pos (not_not.mp hpointer)
    rw [hstage, if_pos hverify]
    refine follows_bind
      (follows_mapRaised (follows_ask rfl fun answer => ⟨fun changed hchanged => ?_, by simp⟩))
    subst hchanged
    refine ⟨fun _ hv => ?_, by simp⟩
    obtain rfl := Except.ok.inj hv
    show Follows tenantId _ (.ofChanged a results changed) _
    refine follows_failIf (fun _ => ⟨by simp, by simp⟩) fun hsame => ⟨fun _ _ _ => ?_, by simp⟩
    exact if_pos (not_not.mp hsame)

variable {request : SearchRequest}

theorem findHits_follows {name : Str} :
    Follows tenantId (findHits request name : SearchAct F (List (Hit F))) (.opened (some a))
    fun _ t => t = .opened (some a) := by
  refine follows_bind
    ((follows_opened (allows_other fun _ _ _ => by simp) fun answer => rfl).mono ?_)
  rintro out _ t rfl
  refine ⟨fun query _ => ?_, fun _ _ => rfl⟩
  refine follows_bind
    ((follows_opened (allows_other fun _ _ _ => by simp) fun answer => rfl).mono ?_)
  rintro out _ t rfl
  exact ⟨fun points _ => rfl, fun _ _ => rfl⟩

theorem activeSearch_follows :
    Follows request.tenantId (activeSearch request a : SearchAct F (SearchResponse F))
    (.opened (some a))
    fun out t => ∀ response, out = .ok response → Told response t := by
  refine follows_bind (openCollection_follows.mono ?_)
  rintro out _ t rfl
  refine ⟨fun _ _ => follows_bind (checkBefore_follows.mono ?_), by simp⟩
  rintro out _ t ⟨rfl, hverify⟩
  refine ⟨fun _ hout => follows_bind (findHits_follows.mono ?_), by simp⟩
  have hverify := hverify hout
  rintro out _ t rfl
  refine ⟨fun results _ => follows_bind ((checkAfter_follows hverify).mono ?_), by simp⟩
  rintro out _ t hcurrent
  refine ⟨fun _ hout => follows_pure fun response hresponse => ?_, by simp⟩
  obtain rfl := Except.ok.inj hresponse
  exact Or.inl ⟨if_pos hverify, a, hcurrent hout⟩

theorem ragSearch_follows : Follows request.tenantId
    (ragSearch request : SearchAct F (SearchResponse F)) .start
    fun out t => ∀ response, out = .ok response → Told response t := by
  refine follows_bind (follows_ask rfl fun answer => ⟨fun active hactive => ?_, by simp⟩)
  subst hactive
  show Follows request.tenantId _ (.opened active) _
  cases active with
  | some a =>
    refine follows_bind
      ((follows_opened (allows_other fun _ _ _ => by simp) fun answer => rfl).mono ?_)
    rintro out _ t rfl
    refine ⟨fun managed _ => follows_bind (follows_failIf (fun _ => ⟨by simp, by simp⟩) fun _ =>
      ⟨fun _ _ => ?_, by simp⟩), by simp⟩
    exact activeSearch_follows
  | none =>
    refine follows_bind (follows_ask rfl fun answer => ⟨fun managed hmanaged => ?_, by simp⟩)
    subst hmanaged
    show Follows request.tenantId _ (.ofManaged managed) _
    refine follows_bind (follows_failIf (fun _ => ⟨by simp, by simp⟩) fun _ =>
      ⟨fun _ _ => ?_, by simp⟩)
    cases managed with
    | true =>
      refine follows_pure fun response hresponse => ?_
      obtain rfl := Except.ok.inj hresponse
      exact Or.inr (Or.inl ⟨rfl, rfl⟩)
    | false =>
      exact (legacy_follows (legacySearch request : SearchAct F (SearchResponse F))).mono
        fun _ _ _ ht _ _ => Or.inr (Or.inr ht)

end

/-! ## What the stages know of the world -/

section

variable {F : Type} {S : Server F} {tenantId : Str} {w w' : World} {t : Stage F} {a : ActiveState}
  {hits : List (Hit F)}

/-- The hits are in the manifest of the snapshot that the pointer named. -/
def Backed (S : Server F) (s : IndexState) (a : ActiveState) (hits : List (Hit F)) : Prop :=
  ∃ x ∈ s.snapshots, x.snapshotId = a.snapshotId ∧ ∀ hit ∈ hits, InManifest S x hit

def Knows (S : Server F) (tenantId : Str) (s : IndexState) : Stage F → Prop
  | .legacy => False
  | .checked a hits => Backed S s a hits
  | .confirmed a hits =>
    Backed S s a hits ∧ (s.activeOf tenantId).map ActiveIndex.snapshotId = some a.snapshotId
  | _ => True

structure Known (S : Server F) (tenantId : Str) (s : IndexState) (t : Stage F) : Prop where
  inv : Inv s
  managed : s.tenantIsManaged tenantId = true
  knows : Knows S tenantId s t

theorem Continues.mem {x y : Snapshot} (h : Continues x y) {r : ManifestRow} (hr : r ∈ x.manifest) :
    ∃ r' ∈ y.manifest, r'.toManifestEntry = r.toManifestEntry := by
  obtain ⟨-, hmanifest⟩ := h
  generalize x.manifest = rows at hmanifest hr
  generalize y.manifest = rows' at hmanifest ⊢
  induction hmanifest with
  | nil => cases hr
  | @cons q q' _ _ hq _ ih =>
    rcases List.mem_cons.mp hr with rfl | hmem
    · exact ⟨q', List.mem_cons_self, hq.entry⟩
    · obtain ⟨r', hr', hentry⟩ := ih hmem
      exact ⟨r', List.mem_cons_of_mem _ hr', hentry⟩

theorem InManifest.continues {x y : Snapshot} {hit : Hit F} (h : InManifest S x hit)
    (hxy : Continues x y) : InManifest S y hit := by
  obtain ⟨r, hr, hkey, bytes, hbytes, hcontent⟩ := h
  obtain ⟨r', hr', hentry⟩ := hxy.mem hr
  refine ⟨r', hr', ?_, bytes, hbytes, ?_⟩
  · rw [hentry, hkey]
  · rw [hentry, hcontent]

variable {s s' : IndexState} {c : SearchCall F}

theorem Backed.moved (h : Backed S s a hits) (hmoved : Moved s s') : Backed S s' a hits := by
  obtain ⟨x, hx, hid, hhits⟩ := h
  obtain ⟨y, hy, hxy, -⟩ := hmoved.kept x hx
  exact ⟨y, hy, (fields_of_frame hxy.frame).1.trans hid, fun hit hmem =>
    (hhits hit hmem).continues hxy⟩

/-- A tenant keeps having snapshots. -/
theorem managed_step {P : Platform} {repr : PyVal → Str} {e : Event}
    (hstep : step P repr s e = some s') (h : s.tenantIsManaged tenantId = true) :
    s'.tenantIsManaged tenantId = true := by
  unfold IndexState.tenantIsManaged at h ⊢
  rcases step_tables hstep with ⟨hactive, hmanaged⟩ | ⟨x, points, now, -, -, rfl⟩
  · unfold IndexState.activeOf at h ⊢
    rw [hactive, hmanaged]
    exact h
  · rw [activeOf_activate, managed_activate]
    by_cases htenant : x.tenantId = tenantId
    · rw [if_pos htenant]
      simp
    · rw [if_neg htenant]
      rcases Bool.or_eq_true_iff.mp h with h | h
      · split
        · rw [h, Bool.true_or]
        · rw [List.any_append, h, Bool.true_or, Bool.true_or]
      · rw [h, Bool.or_true]

/-- The pointer of a tenant moves with its commits only. -/
theorem pointer_step {P : Platform} {repr : PyVal → Str} {e : Event}
    (hstep : step P repr s e = some s')
    (hcommit : ∀ snapshotId points now s', e = .commit snapshotId tenantId points now →
      commitSnapshot s snapshotId tenantId points now ≠ .ok s') :
    s'.activeOf tenantId = s.activeOf tenantId := by
  rcases step_tables hstep with ⟨hactive, -⟩ | ⟨x, points, now, rfl, hok, rfl⟩
  · unfold IndexState.activeOf
    rw [hactive]
  · rw [activeOf_activate, if_neg]
    rintro rfl
    exact hcommit _ _ _ _ rfl hok

theorem Known.step (h : Known S tenantId s t) {e : Event}
    (hstep : step S.platform S.repr s e = some s')
    (hpointer : ∀ a hits, t = .confirmed a hits → s'.activeOf tenantId = s.activeOf tenantId) :
    Known S tenantId s' t := by
  obtain ⟨hinv, hmoved⟩ := h.inv.step hstep
  refine ⟨hinv, managed_step hstep h.managed, ?_⟩
  have hknows := h.knows
  cases t with
  | checked a hits => exact Backed.moved hknows hmoved
  | confirmed a hits =>
    refine ⟨hknows.1.moved hmoved, ?_⟩
    rw [hpointer a hits rfl]
    exact hknows.2
  | legacy => exact hknows
  | _ => trivial

/-- Only the second look at the pointer confirms it. -/
theorem next_eq_confirmed {answer : Except HttpError c.Reply}
    (h : t.next c answer = .confirmed a hits) :
    t = .checked a hits ∧ ∃ tenantId, c = .activeSnapshot tenantId := by
  unfold Stage.next at h
  split at h
  · cases h
  · unfold Stage.ofManaged at h
    split at h <;> cases h
  · cases h
  · cases h
  · cases h
  · unfold Stage.ofPointer at h
    split at h
    · obtain ⟨rfl, rfl⟩ := Stage.confirmed.inj h
      exact ⟨rfl, _, rfl⟩
    · cases h
  · unfold Stage.ofChanged at h
    split at h <;> cases h
  · cases h

/-- Only the last check makes a search current. -/
theorem next_eq_current {answer : Except HttpError c.Reply}
    (h : t.next c answer = .current a hits) :
    t = .confirmed a hits ∧ ∃ active, ∃ hc : c = .matchesRoot active,
    hc ▸ answer = .ok ([] : List Str) := by
  unfold Stage.next at h
  split at h
  · cases h
  · unfold Stage.ofManaged at h
    split at h <;> cases h
  · cases h
  · cases h
  · cases h
  · unfold Stage.ofPointer at h
    split at h <;> cases h
  · unfold Stage.ofChanged at h
    split at h
    · next hnil =>
      obtain ⟨rfl, rfl⟩ := Stage.current.inj h
      subst hnil
      exact ⟨rfl, _, rfl, rfl⟩
    · cases h
  · cases h

theorem awaitsCheck_of_confirmed {s : Searching F}
    (h : (searchProtocol tenantId).after .start s.replies = .confirmed a hits) : AwaitsCheck s := by
  unfold AwaitsCheck
  generalize s.replies = replies at h ⊢
  rcases List.eq_nil_or_concat replies with rfl | ⟨before, ⟨c, answer⟩, rfl⟩
  · cases h
  · unfold Protocol.after at h
    rw [List.concat_eq_append, List.foldl_append] at h
    obtain ⟨hbefore, tenant, rfl⟩ := next_eq_confirmed h
    refine ⟨before, tenant, answer, List.concat_eq_append, ?_⟩
    rintro rfl
    cases hbefore

/-- A hit that is validated is in the manifest. -/
theorem inManifest_of_validateHit {x : Snapshot} {hit : Hit F} {u : Unit}
    (h : validateHit S x hit = .ok u) : InManifest S x hit := by
  unfold validateHit at h
  cases hbytes : encode (str S.toEnv hit.text) with
  | none =>
    rw [hbytes] at h
    cases h
  | some bytes =>
    simp only [hbytes] at h
    cases hrow : (hit.key S).bind x.uploadedRow with
    | none =>
      rw [hrow] at h
      cases h
    | some row =>
      simp only [hrow] at h
      obtain ⟨_, hcontent, -⟩ := bind_eq_ok.mp h
      rw [raiseIf_eq_ok, not_not] at hcontent
      obtain ⟨key, hkey, hfind⟩ := Option.bind_eq_some_iff.mp hrow
      have hmem := List.mem_of_find?_eq_some hfind
      have hsame :=
        of_decide_eq_true
        (List.find?_some (p := fun r : ManifestRow => decide (r.key = key ∧ r.uploaded = .done))
          hfind)
      exact ⟨row, hmem, by rw [hkey, hsame.1], bytes, hbytes, hcontent⟩

theorem backed_of_validateHits {tenant : Str} {u : Unit}
    (h : validateHits S s a.snapshotId tenant hits = .ok u) : Backed S s a hits := by
  unfold validateHits at h
  cases hfind : s.find a.snapshotId with
  | none =>
    rw [hfind] at h
    cases h
  | some x =>
    simp only [hfind] at h
    obtain ⟨_, -, h⟩ := bind_eq_ok.mp h
    obtain ⟨us, hall, -⟩ := bind_eq_ok.mp h
    obtain ⟨hx, hid⟩ := find_eq_some hfind
    refine ⟨x, hx, hid, fun hit hhit => ?_⟩
    obtain ⟨u, -, hu⟩ := exists_of_mapM_eq_ok hall hhit
    exact inManifest_of_validateHit hu

theorem activeSnapshot_eq_some (h : s.activeSnapshot tenantId = some a) :
    s.activeOf tenantId = some a.toActiveIndex := by
  obtain ⟨b, hb, h⟩ := Option.bind_eq_some_iff.mp h
  obtain ⟨x, -, h⟩ := Option.bind_eq_some_iff.mp h
  obtain rfl := Option.some.inj h
  exact hb

theorem matchesRoot_eq_nil (h : S.matchesRoot w a = .ok []) :
    ∃ actual, treeManifest S.platform w.tree = .ok actual ∧
    SameManifest (w.index.manifestOf a.snapshotId) actual := by
  unfold Server.matchesRoot at h
  obtain ⟨_, -, h⟩ := bind_eq_ok.mp h
  obtain ⟨actual, hactual, h⟩ := bind_eq_ok.mp h
  exact ⟨actual, hactual, changedSources_eq_nil.mp (Except.ok.inj h)⟩

/-- What a search knows when the last check finds the tree unchanged. -/
theorem Known.verified (h : Known S tenantId w.index (.confirmed a hits))
    (hroot : S.matchesRoot w a = .ok []) : Verified S w tenantId hits := by
  obtain ⟨⟨x, hx, hid, hhits⟩, hpointer⟩ := h.knows
  obtain ⟨b, hb, hba⟩ := Option.map_eq_some_iff.mp hpointer
  -- the snapshot of the pointer is the one the hits were validated against
  obtain ⟨y, hy, hactive, hnames⟩ := h.inv.pointer b (mem_of_activeOf hb).1
  have hxy : y = x := h.inv.eq_of_id hy hx (by rw [← hnames.snapshotId, hba, hid])
  subst hxy
  obtain ⟨actual, hactual, hsame⟩ := matchesRoot_eq_nil hroot
  refine ⟨b, y, hb, hy, hnames.snapshotId, hactive, hhits, actual, hactual, ?_⟩
  unfold IndexState.manifestOf at hsame
  rw [← hid, find_of_mem h.inv hx] at hsame
  exact hsame

theorem answer_eq_ok {env : SearchEnv F} {r : c.Reply} (h : SearchCall.answer S w env c = .ok r) :
    c.answerIn S w env = .ok r := by
  unfold SearchCall.answer at h
  split at h
  · cases h
  · cases hin : c.answerIn S w env with
    | error e =>
      rw [hin] at h
      cases h
    | ok r' =>
      rw [hin] at h
      exact congrArg Except.ok (Except.ok.inj h)

/-- **What an answer tells is so.** -/
theorem Known.answer (h : Known S tenantId w.index t) {c : SearchCall F} (hc : t.Allows tenantId c)
    (env : SearchEnv F) : Known S tenantId w.index (t.next c (SearchCall.answer S w env c)) := by
  refine ⟨h.inv, h.managed, ?_⟩
  have hknows := h.knows
  generalize hanswer : SearchCall.answer S w env c = answer
  unfold Stage.next
  split
  · trivial
  · next tenant managed =>
    obtain rfl := SearchCall.tenantIsManaged.inj hc
    have hmanaged : w.index.tenantIsManaged tenant = managed := Except.ok.inj (answer_eq_ok hanswer)
    rw [h.managed] at hmanaged
    subst hmanaged
    trivial
  · next a id tenant hits u =>
    obtain ⟨rfl, rfl⟩ := hc id tenant hits rfl
    exact backed_of_validateHits (answer_eq_ok hanswer)
  · trivial
  · exact hknows
  · next a hits tenant latest =>
    obtain rfl := SearchCall.activeSnapshot.inj hc
    have hlatest : w.index.activeSnapshot tenant = latest := Except.ok.inj (answer_eq_ok hanswer)
    unfold Stage.ofPointer
    split
    · next hsame =>
      obtain ⟨b, rfl, hb⟩ := Option.map_eq_some_iff.mp hsame
      refine ⟨hknows, ?_⟩
      rw [activeSnapshot_eq_some hlatest]
      exact congrArg some hb
    · trivial
  · unfold Stage.ofChanged
    split <;> trivial
  · trivial

/-- **Verified search.** In a world that commits nothing for the tenant between the second look at
the pointer and the last check, the hits that are returned as current are in the manifest of the
snapshot that is active at that check, and the manifest is the one of the tree. Otherwise there are
no hits. -/
theorem run_verified_search {request : SearchRequest} {tree : SourceTree} {ws : List WorldEvent}
    {w₀ : World}
    (hworld : run (worldStep S) (World.empty tree) ws = some w₀)
    (hmanaged : w₀.index.tenantIsManaged request.tenantId = true)
    {es : List (Motion WorldEvent (SearchEnv F))}
      (hcalm : Along (searchStep S) (Calm request.tenantId) (Searching.start request w₀) es)
    {s s' : Searching F} (h : run (searchStep S) (Searching.start request w₀) es = some s)
      {env : SearchEnv F}
    (hlast : searchStep S s (.answer env) = some s') {response : SearchResponse F}
      (hdone : s'.rest = .done (.ok response, ())) :
    (response.indexStatus = .verifiedCurrent ∧
      Verified S s.world request.tenantId response.results) ∨
      (response.indexStatus = .notYetPublished ∧ response.results = []) := by
  have hinv : Inv w₀.index := by
    refine run_invariant (I := fun w : World => Inv w.index) ?_ inv_empty hworld
    intro w e w' hw hstep
    cases e with
    | transaction e =>
      obtain ⟨index, hindex, rfl⟩ := Option.map_eq_some_iff.mp hstep
      exact (hw.step hindex).1
    | edit tree =>
      obtain rfl := Option.some.inj hstep
      exact hw
  have hprogram : ((ragSearch request : SearchAct F (SearchResponse F)) ()).Ensures
    (searchProtocol request.tenantId) .start fun out t =>
      ∀ response, out.1 = .ok response → Told response t := ragSearch_follows
  have hmove : ∀ (s : Searching F) e w, Known S request.tenantId s.world.index
    ((searchProtocol request.tenantId).after .start s.replies) →
      Calm request.tenantId s (.move e) → worldStep S s.world e = some w →
      Known S request.tenantId w.index
          ((searchProtocol request.tenantId).after .start s.replies) := by
    intro s e w hknown hcalm hstep
    cases e with
    | transaction e =>
      obtain ⟨index, hindex, rfl⟩ := Option.map_eq_some_iff.mp hstep
      refine hknown.step hindex fun a hits hstage => pointer_step hindex ?_
      rintro snapshotId points now t rfl hok
      exact hcalm rfl ⟨t, hok⟩ (awaitsCheck_of_confirmed hstage)
    | edit tree =>
      obtain rfl := Option.some.inj hstep
      exact hknown
  obtain ⟨hrest, hknown⟩ :=
    moving_invariant (R := fun w t => Known S request.tenantId w.index t) hprogram hmove
    (fun w t c env hknown hc => hknown.answer hc env) ⟨hinv, hmanaged, trivial⟩ hcalm h
  generalize (searchProtocol request.tenantId).after .start s.replies = t at hrest hknown
  -- the last answer ends the program
  simp only [searchStep, movingStep] at hlast
  split at hlast
  · cases hlast
  next c next hask =>
  obtain rfl := Option.some.inj hlast
  rw [hask] at hrest
  obtain ⟨hallowed, hrest⟩ := hrest
  have hafter := hknown.answer hallowed env
  have htold : Told response (t.next c (SearchCall.answer S s.world env c)) := by
    have hend := hrest (SearchCall.answer S s.world env c)
    rw [show next (SearchCall.answer S s.world env c) = .done (.ok response, ()) from hdone] at hend
    exact hend response rfl
  generalize hanswer : SearchCall.answer S s.world env c = answer at hafter htold
  rcases htold with ⟨hstatus, a, hcurrent⟩ | hempty | hlegacy
  · obtain ⟨rfl, active, rfl, rfl⟩ := next_eq_current hcurrent
    obtain rfl := SearchCall.matchesRoot.inj hallowed
    exact Or.inl ⟨hstatus, hknown.verified (answer_eq_ok hanswer)⟩
  · exact Or.inr hempty
  · rw [hlegacy] at hafter
    exact hafter.knows.elim

end

/-! ## A vault that is edited and edited back -/

/-- A platform whose hashes are texts with their lengths, in 32 bytes where they are short. -/
def paddedHashes : Platform :=
  ⟨KeySort.insertion, fun b => UInt8.ofNat b.length :: (b ++ List.replicate (31 - b.length) 0)⟩

theorem paddedHashes_injective : Function.Injective paddedHashes.sha256 := by
  intro a b h
  obtain ⟨hhead, htail⟩ := List.cons.inj h
  have hlength := congrArg List.length htail
  simp only [List.length_append, List.length_replicate] at hlength
  have hsame : a.length = b.length := by
    by_cases hshort : a.length ≤ 31 ∧ b.length ≤ 31
    · have hmod := congrArg UInt8.toNat hhead
      simp only [UInt8.toNat_ofNat'] at hmod
      omega
    · omega
  exact (List.append_inj htail hsame).1

def vaultServer : Server ℚ :=
  { sqrt := id, uuid5 := id, repr := fun _ => [], maxVariables := 0, platform := paddedHashes
    vaultPath := lit "v"
    resolve := id, textAffinity := fun _ => none, integerAffinity := fun _ => none }

def vaultTenant : Str := lit "wilson-vault"

/-- The vault with one file. -/
def vaultTree (text : Bytes) : SourceTree := ⟨lit "v", true, true, [⟨[], lit "a.md", .bytes text⟩]⟩

/-- The snapshot of that vault, from its manifest to the commit. -/
def vaultBuild (snapshotId : Str) (text : Bytes) : List Event :=
  let hash : PyVal := .str (paddedHashes.hexdigest text)
  [.begin ⟨vaultTenant, [⟨.str (lit "a.md"), .int 0, hash, hash⟩], true, some (lit "v"), snapshotId,
    lit "now"⟩,
    .validate snapshotId vaultTenant [⟨.str (lit "a.md"), .int 0, (decode text).map .str, hash⟩],
    .reserve 0,
    .record snapshotId vaultTenant [(lit "a.md", 0)], .commit snapshotId vaultTenant 1 (lit "now")]

/-- The point of the file in that snapshot. -/
def vaultPoint (snapshotId : Str) (text : Bytes) : ScoredPoint ℚ :=
  let hash : PyVal := .str (paddedHashes.hexdigest text)
  { id := [], score := 1
    payload := [(lit "text", .str (decodeIgnore text)), (lit "source", .str (lit "a.md")),
      (lit "chunk", .int 0),
      (lit "metadata",
        .dict [(.str (lit "_rag_content_sha256"), hash), (.str (lit "_rag_source_sha256"), hash),
        (.str (lit "_rag_snapshot_id"), .str snapshotId)])] }

def bytesA : Bytes := [97]

def bytesB : Bytes := [98]

/-- The vault is indexed. -/
def vaultIndexed : List WorldEvent := (vaultBuild (lit "s1") bytesA).map .transaction

def vaultRequest : SearchRequest := ⟨vaultTenant, lit "q", 5⟩

/-- A world that answers, with the point of that file. -/
def answered : Motion WorldEvent (SearchEnv ℚ) := .answer ⟨none, [], [vaultPoint (lit "s1") bytesA]⟩

/-- All answers but the last. -/
def untilLast : List (Motion WorldEvent (SearchEnv ℚ)) := List.replicate 8 answered

/-- The vault is edited, indexed again, and edited back. -/
def swapped : List (Motion WorldEvent (SearchEnv ℚ)) :=
  let events : List WorldEvent :=
    .edit (vaultTree bytesB) :: (vaultBuild (lit "s2") bytesB).map .transaction ++
      [.edit (vaultTree bytesA)]
  events.map .move

def vaultWorld : Option World :=
  run (worldStep vaultServer) (World.empty (vaultTree bytesA)) vaultIndexed

/-- A search of the vault. -/
def vaultSearch (es : List (Motion WorldEvent (SearchEnv ℚ))) : Option (Searching ℚ) :=
  vaultWorld.bind fun w => run (searchStep vaultServer) (Searching.start vaultRequest w) es

/-- The search has ended with a hit that is returned as current. -/
def Searching.vouches (s : Searching ℚ) : Bool :=
  match s.rest with
  | .done (.ok response, ()) =>
    decide (response.indexStatus = .verifiedCurrent ∧ response.results.length = 1)
  | _ => false

/-- No active snapshot has an entry with the text of a hit. -/
def Searching.outdated (s : Searching ℚ) : Bool :=
  match s.rest with
  | .done (.ok response, ()) =>
    s.world.index.snapshots.all fun x => x.status ≠ .active || response.results.all fun hit =>
      x.manifest.all fun r =>
      (encode (str vaultServer.toEnv hit.text)).all fun bytes => r.contentSha256 ≠
        paddedHashes.hexdigest bytes
  | _ => false

theorem vaultSearch_vouches {es : List (Motion WorldEvent (SearchEnv ℚ))}
    (h : (vaultSearch (es ++ [answered])).map Searching.vouches = some true) :
    ∃ w₀ s s' response, vaultWorld = some w₀ ∧
      run (searchStep vaultServer) (Searching.start vaultRequest w₀) es = some s ∧
      searchStep vaultServer s answered = some s' ∧ s'.rest = .done (.ok response, ()) ∧
        response.indexStatus = .verifiedCurrent ∧ response.results.length = 1 := by
  obtain ⟨s', hs', hvouches⟩ := Option.map_eq_some_iff.mp h
  obtain ⟨w₀, hw₀, hrun⟩ := Option.bind_eq_some_iff.mp hs'
  rw [run_append, Option.bind_eq_some_iff] at hrun
  obtain ⟨s, hs, hlast⟩ := hrun
  rw [run_cons, Option.bind_eq_some_iff] at hlast
  obtain ⟨s'', hlast, hnil⟩ := hlast
  obtain rfl := Option.some.inj hnil
  unfold Searching.vouches at hvouches
  split at hvouches
  · next response hrest =>
      exact ⟨w₀, s, _, response, hw₀, hs, hlast, hrest, of_decide_eq_true hvouches⟩
  · cases hvouches

theorem run_verified_search_vault : ∃ w₀ s s' response, vaultWorld = some w₀ ∧
    run (searchStep vaultServer) (Searching.start vaultRequest w₀) untilLast = some s ∧
    searchStep vaultServer s answered = some s' ∧ s'.rest = .done (.ok response, ()) ∧
      response.results.length = 1 ∧
    ((response.indexStatus = .verifiedCurrent ∧
      Verified vaultServer s.world vaultTenant response.results) ∨
      (response.indexStatus = .notYetPublished ∧ response.results = [])) := by
  have hvouches : (vaultSearch (untilLast ++ [answered])).map Searching.vouches = some true := by
    decide +kernel
  obtain ⟨w₀, s, s', response, hw₀, hs, hlast, hrest, -, hlength⟩ := vaultSearch_vouches hvouches
  have hmanaged : vaultWorld.map (fun w => w.index.tenantIsManaged vaultTenant) = some true := by
    decide +kernel
  rw [hw₀] at hmanaged
  have hmanaged : w₀.index.tenantIsManaged vaultRequest.tenantId = true := Option.some.inj hmanaged
  have hcalm : Along (searchStep vaultServer) (Calm vaultTenant) (Searching.start vaultRequest w₀)
      untilLast := by
    refine along_of_mem fun e he t => ?_
    obtain rfl := List.eq_of_mem_replicate he
    trivial
  exact ⟨w₀, s, s', response, hw₀, hs, hlast, hrest, hlength,
    run_verified_search hw₀ hmanaged hcalm hs hlast hrest⟩

theorem not_inManifest_of_outdated {s : Searching ℚ} {response : SearchResponse ℚ}
    (hdone : s.rest = .done (.ok response, ()))
    (h : s.outdated = true) {x : Snapshot} (hx : x ∈ s.world.index.snapshots)
    (hactive : x.status = .active) {hit : Hit ℚ}
    (hhit : hit ∈ response.results) : ¬ InManifest vaultServer x hit := by
  rintro ⟨r, hr, -, bytes, hbytes, hcontent⟩
  unfold Searching.outdated at h
  rw [hdone] at h
  have hx := List.all_eq_true.mp h x hx
  rw [hactive] at hx
  have hhit := List.all_eq_true.mp hx hit hhit
  have hr := List.all_eq_true.mp hhit r hr
  rw [hbytes] at hr
  exact of_decide_eq_true hr hcontent

/-- Another snapshot is committed after the second look at the pointer, and the vault is edited back
before the last check: the hits of the first snapshot are returned as current. -/
theorem not_verified_search : Function.Injective vaultServer.platform.sha256 ∧
    ∃ w₀ s s' response, vaultWorld = some w₀ ∧ w₀.index.tenantIsManaged vaultTenant = true ∧
      run (searchStep vaultServer) (Searching.start vaultRequest w₀)
      (untilLast ++ swapped) = some s ∧
      searchStep vaultServer s answered = some s' ∧ s'.rest = .done (.ok response, ()) ∧
      response.indexStatus = .verifiedCurrent ∧ response.results.length = 1 ∧
      (∀ x ∈ s'.world.index.snapshots, x.status = .active → ∀ hit ∈ response.results,
        ¬ InManifest vaultServer x hit) ∧
      ¬ Verified vaultServer s'.world vaultTenant response.results := by
  have hvouches : (vaultSearch (untilLast ++ swapped ++ [answered])).map Searching.vouches =
    some true := by decide +kernel
  have houtdated : (vaultSearch (untilLast ++ swapped ++ [answered])).map Searching.outdated =
    some true := by decide +kernel
  obtain ⟨w₀, s, s', response, hw₀, hs, hlast, hrest, hstatus, hlength⟩ :=
    vaultSearch_vouches hvouches
  have hmanaged : vaultWorld.map (fun w => w.index.tenantIsManaged vaultTenant) = some true := by
    decide +kernel
  rw [hw₀] at hmanaged
  have hsearch : vaultSearch (untilLast ++ swapped ++ [answered]) = some s' := by
    unfold vaultSearch
    rw [hw₀, Option.bind_some, run_append, hs, Option.bind_some, run_cons, hlast]
    rfl
  rw [hsearch] at houtdated
  have hnone : ∀ x ∈ s'.world.index.snapshots, x.status = .active → ∀ hit ∈ response.results,
      ¬ InManifest vaultServer x hit :=
    fun x hx hactive hit hhit => not_inManifest_of_outdated hrest (Option.some.inj houtdated) hx
      hactive hhit
  refine ⟨paddedHashes_injective, w₀, s, s', response, hw₀, Option.some.inj hmanaged, hs, hlast,
    hrest, hstatus, hlength, hnone, ?_⟩
  rintro ⟨a, x, -, hx, -, hactive, hhits, -⟩
  obtain ⟨hit, hhit⟩ := List.exists_mem_of_length_pos (Nat.lt_of_lt_of_eq Nat.one_pos hlength.symm)
  exact hnone x hx hactive hit hhit (hhits hit hhit)

end Rag
