import Msb.Mission.System

/-!
# Who let a mission through

A merged mission was approved three times by an operator and once by the gate. The history of a
mission is read along its stage: a detour through `BLOCKED_ON_HUMAN` keeps the stage it left, so the
stage of a blocked mission is the one of the state it resumes.

* `stage_edge` — every transition leads to the stage of its target
* `run_authority` — the invariant of every mission, in every state reached
-/

namespace Mission

open Py Ledger Machine

variable {P : Platform} {store : MissionStore} {h : List TransitionRow} {t : TransitionRow}

/-! ## Decisions in a history -/

def TransitionRow.Approved (store : MissionStore) (t : TransitionRow) : Prop :=
  ∃ a ∈ t.approvedBy, a ∈ store.operators

/-- An operator accepts the blueprint. -/
def TransitionRow.AcceptsBlueprint (store : MissionStore) (t : TransitionRow) : Prop :=
  t.fromState = .blueprintReview ∧ t.toState = .planning ∧ t.Approved store

/-- An operator accepts the plan. -/
def TransitionRow.AcceptsPlan (store : MissionStore) (t : TransitionRow) : Prop :=
  t.fromState = .planReview ∧ t.toState = .building ∧ t.Approved store

/-- An entry into `BUILDING` that is not a return. -/
def TransitionRow.EntersBuilding (t : TransitionRow) : Prop :=
  t.toState = .building ∧ t.fromState ≠ .blockedOnHuman

/-- The gate lets the mission pass. -/
def TransitionRow.Passes (t : TransitionRow) : Prop :=
  (t.toState = .gatedGreen ∨ t.toState = .gatedReview) ∧ t.actor = gateActor

/-- An operator merges. -/
def TransitionRow.Merges (store : MissionStore) (t : TransitionRow) : Prop :=
  t.toState = .merged ∧ t.Approved store

/-- The blueprint was accepted. -/
def Planned (store : MissionStore) (h : List TransitionRow) : Prop :=
  ∃ a plan b, h = a ++ plan :: b ∧ plan.AcceptsBlueprint store

/-- The blueprint was accepted, and then the plan. -/
def Built (store : MissionStore) (h : List TransitionRow) : Prop :=
  ∃ a plan b build c, h = a ++ plan :: (b ++ build :: c) ∧ plan.AcceptsBlueprint store ∧
    build.AcceptsPlan store

/-- The gate has let the mission pass into `s` since the last time building began. -/
def PassedInto (s : MissionState) (h : List TransitionRow) : Prop :=
  ∃ p entry q verdict r, h = p ++ entry :: (q ++ verdict :: r) ∧ entry.EntersBuilding ∧
    (∀ x ∈ q ++ verdict :: r, ¬ x.EntersBuilding) ∧ verdict.Passes ∧ verdict.toState = s

/-- The blueprint and the plan were accepted, and the gate has let the mission pass since. -/
def Gated (store : MissionStore) (s : MissionState) (h : List TransitionRow) : Prop :=
  ∃ a plan b build c, h = a ++ plan :: (b ++ build :: c) ∧ plan.AcceptsBlueprint store ∧
    build.AcceptsPlan store ∧ PassedInto s (build :: c)

/-- The blueprint and the plan were accepted, the gate has let the mission pass since it was last
built, and an operator has merged what the gate let pass. -/
def Authorised (store : MissionStore) (h : List TransitionRow) : Prop :=
  ∃ g merge, h = g ++ [merge] ∧ Gated store merge.fromState g ∧ merge.Merges store

/-- What the history of a mission shows where it stands in `s`. -/
def Stage (store : MissionStore) (s : MissionState) (h : List TransitionRow) : Prop :=
  match s with
  | .planning => Planned store h
  | .planReview => Planned store h
  | .building => Built store h
  | .verifying => Built store h
  | .gatedBlock => Built store h
  | .gatedGreen => Gated store .gatedGreen h
  | .gatedReview => Gated store .gatedReview h
  | .merged => Authorised store h
  | _ => True

/-! ## One more transition -/

theorem Planned.concat (hp : Planned store h) : Planned store (h ++ [t]) := by
  obtain ⟨a, plan, b, rfl, hplan⟩ := hp
  exact ⟨a, plan, b ++ [t], by simp, hplan⟩

theorem Built.concat (hb : Built store h) : Built store (h ++ [t]) := by
  obtain ⟨a, plan, b, build, c, rfl, hplan, hbuild⟩ := hb
  exact ⟨a, plan, b, build, c ++ [t], by simp, hplan, hbuild⟩

variable {s : MissionState} {db : MissionDb} {m : MissionRow}

theorem PassedInto.concat (hp : PassedInto s h) (ht : ¬ t.EntersBuilding) :
    PassedInto s (h ++ [t]) := by
  obtain ⟨p, entry, q, verdict, r, rfl, hentry, hlast, hpass, hinto⟩ := hp
  refine ⟨p, entry, q, verdict, r ++ [t], by simp, hentry, ?_, hpass, hinto⟩
  intro x hx
  simp only [List.mem_append, List.mem_cons, List.not_mem_nil, or_false] at hx
  rcases hx with hx | rfl | hx | rfl
  · exact hlast x (by simp [hx])
  · exact hlast x (by simp)
  · exact hlast x (by simp [hx])
  · exact ht

theorem Gated.concat (hg : Gated store s h) (ht : ¬ t.EntersBuilding) :
    Gated store s (h ++ [t]) := by
  obtain ⟨a, plan, b, build, c, rfl, hplan, hbuild, hpass⟩ := hg
  exact ⟨a, plan, b, build, c ++ [t], by simp, hplan, hbuild, hpass.concat ht⟩

theorem Gated.built (hg : Gated store s h) : Built store h := by
  obtain ⟨a, plan, b, build, c, rfl, hplan, hbuild, -⟩ := hg
  exact ⟨a, plan, b, build, c, rfl, hplan, hbuild⟩

theorem Planned.accept (hp : Planned store h) (ht : t.AcceptsPlan store) :
    Built store (h ++ [t]) := by
  obtain ⟨a, plan, b, rfl, hplan⟩ := hp
  exact ⟨a, plan, b, t, [], by simp, hplan, ht⟩

/-- The last element with a property that some element has. -/
theorem exists_last {α : Type*} {p : α → Prop} : ∀ {l : List α} {x : α}, x ∈ l → p x →
    ∃ a y b, l = a ++ y :: b ∧ p y ∧ ∀ z ∈ b, ¬ p z
  | [], x, hx, _ => absurd hx List.not_mem_nil
  | w :: l, x, hx, hp => by
    by_cases hl : ∃ y ∈ l, p y
    · obtain ⟨y, hy, hpy⟩ := hl
      obtain ⟨a, z, b, rfl, hz, hb⟩ := exists_last hy hpy
      exact ⟨w :: a, z, b, rfl, hz, hb⟩
    · have hnone : ∀ z ∈ l, ¬ p z := fun z hz hpz => hl ⟨z, hz, hpz⟩
      rcases List.mem_cons.mp hx with rfl | hx
      · exact ⟨[], x, l, rfl, hp, hnone⟩
      · exact absurd hp (hnone x hx)

/-- A verdict on what was built: building began at the latest where the plan was accepted. -/
theorem Built.pass (hb : Built store h) (ht : t.Passes) : Gated store t.toState (h ++ [t]) := by
  obtain ⟨a, plan, b, build, c, rfl, hplan, hbuild⟩ := hb
  have henter : build.EntersBuilding := ⟨hbuild.2.1, by rw [hbuild.1]; decide⟩
  obtain ⟨p, entry, q, hsplit, hentry, hlast⟩ :=
    exists_last (p := TransitionRow.EntersBuilding)
      (List.mem_cons_self (a := build) (l := c)) henter
  refine ⟨a, plan, b, build, c ++ [t], by simp, hplan, hbuild, p, entry, q, t, [], ?_,
    hentry, ?_, ht, rfl⟩
  · rw [← List.cons_append, hsplit]
    simp
  · intro x hx
    rcases List.mem_append.mp hx with hx | hx
    · exact hlast x hx
    · obtain rfl := List.mem_singleton.mp hx
      rintro ⟨hto, -⟩
      rcases ht.1 with hg | hg <;> rw [hg] at hto <;> cases hto

/-- A transition that does not begin to build keeps the stage of a mission that is not merged. -/
theorem Stage.concat (hs : Stage store s h) (ht : ¬ t.EntersBuilding) (hmerged : s ≠ .merged) :
    Stage store s (h ++ [t]) := by
  cases s with
  | planning => exact Planned.concat hs
  | planReview => exact Planned.concat hs
  | building => exact Built.concat hs
  | verifying => exact Built.concat hs
  | gatedBlock => exact Built.concat hs
  | gatedGreen => exact Gated.concat hs ht
  | gatedReview => exact Gated.concat hs ht
  | merged => exact absurd rfl hmerged
  | draft => trivial
  | researching => trivial
  | blueprintReview => trivial
  | abandoned => trivial
  | blockedOnHuman => trivial

/-- A transition along an edge of the matrix leads to the stage of its target. -/
theorem stage_edge (hs : Stage store t.fromState h) (hedge : t.toState ∈ edges t.fromState)
    (hgate : t.toState.gateVerdict = true → t.actor = gateActor)
    (hhuman : isHumanGated t.fromState t.toState = true → t.Approved store) :
    Stage store t.toState (h ++ [t]) := by
  -- one case for each state that has edges
  rcases hfrom : t.fromState <;> rw [hfrom] at hs hedge hhuman <;>
    simp only [edges, List.mem_cons, List.not_mem_nil, or_false] at hedge
  case draft => rw [hedge]; trivial
  case researching => rw [hedge]; trivial
  case blueprintReview =>
    rcases hedge with hto | hto
    · rw [hto] at hhuman ⊢
      exact ⟨h, t, [], rfl, hfrom, hto, hhuman rfl⟩
    · rw [hto]; trivial
  case planning =>
    rw [hedge]
    exact Planned.concat hs
  case planReview =>
    rcases hedge with hto | hto
    · rw [hto] at hhuman ⊢
      exact Planned.accept hs ⟨hfrom, hto, hhuman rfl⟩
    · rw [hto]
      exact Planned.concat hs
  case building =>
    rw [hedge]
    exact Built.concat hs
  case verifying =>
    rcases hedge with hto | hto | hto | hto
    · have hgated := Built.pass hs ⟨Or.inl hto, hgate (by rw [hto]; rfl)⟩
      rw [hto] at hgated ⊢
      exact hgated
    · have hgated := Built.pass hs ⟨Or.inr hto, hgate (by rw [hto]; rfl)⟩
      rw [hto] at hgated ⊢
      exact hgated
    · rw [hto]
      exact Built.concat hs
    · rw [hto]
      exact Built.concat hs
  case gatedGreen =>
    rw [hedge] at hhuman ⊢
    exact ⟨h, t, rfl, hfrom ▸ hs, hedge, hhuman rfl⟩
  case gatedReview =>
    rcases hedge with hto | hto
    · rw [hto] at hhuman ⊢
      exact ⟨h, t, rfl, hfrom ▸ hs, hto, hhuman rfl⟩
    · rw [hto]
      exact Built.concat (Gated.built hs)
  case gatedBlock =>
    rw [hedge]
    exact Built.concat hs

/-! ## The invariant of a mission -/

/-- The transitions of a mission, in order. -/
def MissionDb.history (db : MissionDb) (missionId : Str) : List TransitionRow :=
  db.transitions.filter fun t => t.missionId = missionId

/-- Where a mission stands: a detour does not count. -/
def MissionRow.standing (m : MissionRow) : MissionState :=
  if m.state = .blockedOnHuman then m.resumeState.getD .blockedOnHuman else m.state

/-- `resume_state` is set exactly in `BLOCKED_ON_HUMAN`, and it names the state that the mission was
blocked in. -/
structure Resumable (db : MissionDb) (m : MissionRow) : Prop where
  blocked : m.resumeState ≠ none ↔ m.state = .blockedOnHuman
  source : ∀ r, m.resumeState = some r → ∃ g t, db.history m.missionId = g ++ [t] ∧
    t.fromState = r ∧ t.toState = .blockedOnHuman
  returnable : ∀ r, m.resumeState = some r → r.terminal = false ∧ r ≠ .blockedOnHuman

structure AuthorityInv (store : MissionStore) (db : MissionDb) : Prop where
  ids : (db.missions.map MissionRow.missionId).Nodup
  stage : ∀ m ∈ db.missions, Stage store m.standing (db.history m.missionId)
  resume : ∀ m ∈ db.missions, Resumable db m

theorem history_move (db : MissionDb) (entry : TransitionRow) (r : Option MissionState)
    (missionId : Str) : (db.move entry r).history missionId =
      db.history missionId ++ if entry.missionId = missionId then [entry] else [] := by
  simp only [MissionDb.history, MissionDb.move, List.filter_append, List.filter_singleton]
  by_cases hid : entry.missionId = missionId <;> simp [hid]

/-- A transition keeps the ids. -/
theorem ids_move (db : MissionDb) (entry : TransitionRow) (r : Option MissionState) :
    (db.move entry r).missions.map MissionRow.missionId = db.missions.map MissionRow.missionId := by
  rw [MissionDb.move, List.map_map]
  refine List.map_congr_left fun y _ => ?_
  by_cases hid : y.missionId = entry.missionId <;> simp [hid]

theorem ids_create (hids : (db.missions.map MissionRow.missionId).Nodup)
    (hfresh : ∀ x ∈ db.missions, x.missionId ≠ m.missionId) :
    ((db.missions ++ [m]).map MissionRow.missionId).Nodup := by
  rw [List.map_append, List.nodup_append]
  refine ⟨hids, List.nodup_singleton _, ?_⟩
  intro a ha b hb
  obtain ⟨x, hx, rfl⟩ := List.mem_map.mp ha
  obtain rfl := List.mem_singleton.mp hb
  exact hfresh x hx

theorem eq_of_missionId (hids : (db.missions.map MissionRow.missionId).Nodup) {m' : MissionRow}
    (hm : m ∈ db.missions) (hm' : m' ∈ db.missions) (hid : m.missionId = m'.missionId) : m = m' :=
  List.inj_on_of_nodup_map hids hm hm' hid

/-- The mission that a transition moves, after it. -/
theorem moved_inv {entry : TransitionRow} (hstage : Stage store m.standing (db.history m.missionId))
    (hresume : Resumable db m) (hids : entry.missionId = m.missionId)
    (hsource : entry.fromState = m.state)
    (hallowed : entry.toState ∈ allowedTargets m.state m.resumeState)
    (hgate : entry.toState.gateVerdict = true → entry.actor = gateActor)
    (hhuman : isHumanGated m.state entry.toState = true → entry.Approved store)
    {r : Option MissionState}
    (hr : r = if entry.toState = .blockedOnHuman then some m.state else none) {m' : MissionRow}
    (hm' : m' = { m with state := entry.toState, resumeState := r, updatedAt := entry.time }) :
    Stage store m'.standing ((db.move entry r).history m'.missionId) ∧
      Resumable (db.move entry r) m' := by
  have hhist : (db.move entry r).history m.missionId = db.history m.missionId ++ [entry] := by
    rw [history_move, if_pos hids]
  subst hm'
  obtain ⟨hterm, hcases⟩ := mem_allowedTargets.mp hallowed
  -- a move to any state but `BLOCKED_ON_HUMAN` clears `resume_state`
  have hcleared : entry.toState ≠ .blockedOnHuman → Stage store entry.toState
      (db.history m.missionId ++ [entry]) → Stage store (MissionRow.standing { m with
        state := entry.toState, resumeState := r, updatedAt := entry.time })
        ((db.move entry r).history m.missionId) ∧ Resumable (db.move entry r) { m with
          state := entry.toState, resumeState := r, updatedAt := entry.time } := by
    intro hne hst
    rw [if_neg hne] at hr
    subst hr
    rw [hhist]
    refine ⟨?_, ?_, ?_, ?_⟩
    · simpa [MissionRow.standing, hne] using hst
    · simp [hne]
    · rintro r ⟨⟩
    · rintro r ⟨⟩
  rcases hcases with hto | ⟨hblocked, hres⟩ | ⟨hne, hto | hedge⟩
  · exact hcleared (by rw [hto]; decide) (by rw [hto]; trivial)
  · -- the return from a detour
    obtain ⟨hopen, hnb⟩ := hresume.returnable _ hres
    have hstand : m.standing = entry.toState := by
      simp [MissionRow.standing, hblocked, hres]
    rw [hstand] at hstage
    refine hcleared hnb (hstage.concat ?_ ?_)
    · rintro ⟨-, hfrom⟩
      exact hfrom (hsource.trans hblocked)
    · intro hm
      rw [hm] at hopen
      exact absurd hopen (by decide)
  · -- the way out of a detour leads back to where it began
    rw [if_pos hto] at hr
    subst hr
    rw [hhist]
    have hstand : m.standing = m.state := by simp [MissionRow.standing, hne]
    rw [hstand] at hstage
    refine ⟨?_, ?_, ?_, ?_⟩
    · have hst : Stage store m.state (db.history m.missionId ++ [entry]) := by
        refine hstage.concat ?_ ?_
        · rintro ⟨hb, -⟩
          rw [hto] at hb
          cases hb
        · intro hm
          rw [hm] at hterm
          exact absurd hterm (by decide)
      simpa [MissionRow.standing, hto] using hst
    · simp [hto]
    · rintro r hr
      obtain rfl := Option.some.inj hr
      exact ⟨_, entry, hhist, hsource, hto⟩
    · rintro r hr
      obtain rfl := Option.some.inj hr
      exact ⟨hterm, hne⟩
  · have hstand : m.standing = m.state := by simp [MissionRow.standing, hne]
    rw [hstand, ← hsource] at hstage
    refine hcleared ?_ (stage_edge hstage (hsource ▸ hedge) hgate (hsource ▸ hhuman))
    intro hb
    rw [hb] at hedge
    cases hs : m.state <;> rw [hs] at hedge <;> simp [edges] at hedge

theorem effect_authority {db' : MissionDb} {call : Option AppendCall} (hinv : AuthorityInv store db)
    (heffect : MissionEffect store db call db') :
    AuthorityInv store db' := by
  cases heffect with
  | same => exact hinv
  | create m hdraft hnone hfresh =>
    have hnew : Resumable { db with missions := db.missions ++ [m] } m := by
      refine ⟨by simp [hnone, hdraft], ?_, ?_⟩
      · intro r hr
        rw [hnone] at hr
        cases hr
      · intro r hr
        rw [hnone] at hr
        cases hr
    refine ⟨?_, ?_, ?_⟩
    · exact ids_create hinv.ids hfresh
    · intro x hx
      rcases List.mem_append.mp hx with hx | hx
      · exact hinv.stage x hx
      · obtain rfl := List.mem_singleton.mp hx
        simp [MissionRow.standing, hdraft, Stage]
    · intro x hx
      rcases List.mem_append.mp hx with hx | hx
      · obtain ⟨hb, hs, ho⟩ := hinv.resume x hx
        exact ⟨hb, hs, ho⟩
      · obtain rfl := List.mem_singleton.mp hx
        exact hnew
  | version v _ _ =>
    refine ⟨hinv.ids, hinv.stage, ?_⟩
    intro x hx
    obtain ⟨hb, hs, ho⟩ := hinv.resume x hx
    exact ⟨hb, hs, ho⟩
  | move m entry hmem hids hsource hallowed hgate hhuman =>
    have hmoved := moved_inv (hinv.stage m hmem) (hinv.resume m hmem) hids hsource hallowed hgate
      hhuman rfl rfl
    generalize (if entry.toState = .blockedOnHuman then some m.state else none) = r at hmoved ⊢
    -- a row of the new table is the moved mission, or one with another id
    have hrows : ∀ x ∈ (db.move entry r).missions,
        x = { m with state := entry.toState, resumeState := r, updatedAt := entry.time } ∨
        x ∈ db.missions ∧ entry.missionId ≠ x.missionId := by
      intro x hx
      obtain ⟨y, hy, rfl⟩ := List.mem_map.mp hx
      by_cases hid : y.missionId = entry.missionId
      · rw [if_pos hid, eq_of_missionId hinv.ids hy hmem (hid.trans hids)]
        exact Or.inl rfl
      · rw [if_neg hid]
        exact Or.inr ⟨hy, fun h => hid h.symm⟩
    refine ⟨?_, ?_, ?_⟩
    · rw [ids_move]
      exact hinv.ids
    · intro x hx
      rcases hrows x hx with rfl | ⟨hy, hid⟩
      · exact hmoved.1
      · rw [history_move, if_neg hid, List.append_nil]
        exact hinv.stage x hy
    · intro x hx
      rcases hrows x hx with rfl | ⟨hy, hid⟩
      · exact hmoved.2
      · obtain ⟨hb, hs, ho⟩ := hinv.resume x hy
        refine ⟨hb, ?_, ho⟩
        rw [history_move, if_neg hid, List.append_nil]
        exact hs

/-! ## Detours -/

/-- The mission stands in `f`, with no detour to return from. -/
def MissionDb.stand (db : MissionDb) (missionId : Str) (f : MissionState) : MissionDb :=
  { db with missions := db.missions.map fun m =>
      if m.missionId = missionId then { m with state := f, resumeState := none } else m }

/-- The only ways out of a detour are the state that it left and `ABANDONED`, and a call that takes
one of them would have been accepted in every state that has it as a direct target. -/
def DetourSafe (store : MissionStore) (db : MissionDb) (m : MissionRow) : Prop :=
  m.state = .blockedOnHuman → ∀ now toState actor reason approvedBy step,
    transition store db now m.missionId toState actor reason approvedBy = .ok step →
    ∃ target, MissionState.ofText store.repr toState = .ok target ∧
      (m.resumeState = some target ∨ target = .abandoned) ∧
      ∀ f, f ≠ .blockedOnHuman → target ∈ allowedTargets f none → ∃ step',
        transition store (db.stand m.missionId f) now m.missionId toState actor reason approvedBy =
          .ok step'

theorem row_stand {missionId : Str} (f : MissionState) (hrow : row store db missionId = .ok m) :
    row store (db.stand missionId f) missionId =
      .ok { m with state := f, resumeState := none } := by
  obtain ⟨u, htexts, hfind⟩ := bind_eq_ok.mp hrow
  refine bind_eq_ok.mpr ⟨u, htexts, ?_⟩
  have hcomp : ((fun x : MissionRow => decide (x.missionId = missionId)) ∘ fun x => if x.missionId =
      missionId then { x with state := f, resumeState := none } else x) =
      fun x => decide (x.missionId = missionId) := by
    funext x
    by_cases hx : x.missionId = missionId <;> simp [hx]
  rw [MissionDb.stand, List.find?_map, hcomp]
  cases hcase : db.missions.find? fun x => x.missionId = missionId with
  | none =>
    rw [hcase] at hfind
    cases hfind
  | some x =>
    rw [hcase] at hfind
    obtain rfl := Except.ok.inj hfind
    have hx : x.missionId = missionId := by simpa using List.find?_some hcase
    simp [hx]

theorem detourSafe (hinv : AuthorityInv store db) (hm : m ∈ db.missions) :
    DetourSafe store db m := by
  intro hblocked now toState actor reason approvedBy step hstep
  obtain ⟨target, m', htarget, hactor, hreason, hrow, hallowed, hgate, hhuman, hart, htexts, -⟩ :=
    transition_eq_ok.mp hstep
  obtain ⟨hmem, hid⟩ := row_eq_ok hrow
  obtain rfl := eq_of_missionId hinv.ids hmem hm hid
  refine ⟨target, htarget, ?_, ?_⟩
  · rcases (mem_allowedTargets.mp hallowed).2 with hto | ⟨-, hres⟩ | ⟨hne, -⟩
    · exact Or.inr hto
    · exact Or.inl hres
    · exact absurd hblocked hne
  · intro f hf hdirect
    -- the return was approved, whatever a direct move would need
    have happroved : ∃ a ∈ approvedBy, a ∈ store.operators := by
      refine hhuman ?_
      unfold isHumanGated
      by_cases hto : target = .abandoned <;> simp [hto, hblocked]
    exact ⟨_, transition_eq_ok.mpr ⟨target, _, htarget, hactor, hreason, row_stand f hrow, hdirect,
      hgate, fun _ => happroved, hart, htexts, rfl⟩⟩

/-! ## Every run -/

/-- The authority invariant of a mission. -/
structure MissionAuthority (store : MissionStore) (db : MissionDb) (m : MissionRow) : Prop where
  merged : m.state = .merged → Authorised store (db.history m.missionId)
  resume : Resumable db m
  detour : DetourSafe store db m

theorem authorityInv_init : AuthorityInv store .init :=
  ⟨List.nodup_nil, fun _ hm => absurd hm List.not_mem_nil, fun _ hm => absurd hm List.not_mem_nil⟩

/-- **Authority.** In every state that any operations, by any number of callers, with any failures
lead to, every mission keeps the authority invariant. -/
theorem run_authority (chain : AuditDb) (es : List MissionEvent) (s : MissionSystem)
    (hrun : run (missionStep P store) (.init chain) es = some s) :
    ∀ m ∈ s.db.missions, MissionAuthority store s.db m := by
  intro m hm
  have hinv : AuthorityInv store s.db := run_db (I := AuthorityInv store) authorityInv_init
    (fun _ _ _ hdb heffect => effect_authority hdb heffect) hrun
  refine ⟨?_, hinv.resume m hm, detourSafe hinv hm⟩
  intro hmerged
  have hstage := hinv.stage m hm
  have hstand : m.standing = .merged := by simp [MissionRow.standing, hmerged]
  rw [hstand] at hstage
  exact hstage

/-- A store with one operator. -/
def oneOperator : MissionStore := ⟨[lit "wilson"], id⟩

def goTo (target actor : String) (approvedBy : Option Str) : MissionOp :=
  .transition (lit "m1") (lit target) (lit actor) (lit "reason") approvedBy

/-- A mission that is merged after a detour from `GATED_GREEN`. -/
def mergedRun : List MissionEvent :=
  [.create (lit "m1") (lit "objective") (lit "hermes") none,
    goTo "RESEARCHING" "hermes" none,
    .addVersion (lit "m1") .blueprint (.dict []) (lit "hermes"),
    goTo "BLUEPRINT_REVIEW" "hermes" none,
    goTo "PLANNING" "hermes" (some (lit "wilson")),
    .addVersion (lit "m1") .plan (.dict []) (lit "hermes"),
    goTo "PLAN_REVIEW" "hermes" none,
    goTo "BUILDING" "hermes" (some (lit "wilson")),
    goTo "VERIFYING" "hermes" none,
    goTo "GATED_GREEN" "msb-gate" none,
    goTo "BLOCKED_ON_HUMAN" "hermes" none,
    goTo "GATED_GREEN" "msb-gate" (some (lit "wilson")),
    goTo "MERGED" "hermes" (some (lit "wilson"))].flatMap commits

theorem run_authority_merged : ∃ s, run (missionStep shortPlatform oneOperator)
    (.init .init) mergedRun = some s ∧ s.db.missions.map MissionRow.state = [.merged] ∧
    ∀ m ∈ s.db.missions, MissionAuthority oneOperator s.db m := by
  have hrun : ((run (missionStep shortPlatform oneOperator) (.init .init) mergedRun).map
      fun s => s.db.missions.map MissionRow.state) = some [.merged] := by decide +kernel
  obtain ⟨s, hs, hstates⟩ := Option.map_eq_some_iff.mp hrun
  exact ⟨s, hs, hstates, run_authority .init mergedRun s hs⟩

end Mission
