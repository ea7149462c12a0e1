import Msb.Conversation.Advance
import Msb.Infra.Run

/-!
# A dag from its first call to its last

A dag that is accepted should be executed to its end: the calls stop, no contract is executed twice
or before its preconditions, and what is left over waits for a task that has ended without
`VERIFIED`.

All of this holds where no call raises, every contract states its status, and the contracts that are
`READY` do not wait for each other in a circle. The validation asks for neither: a contract without
a status and one that is its own precondition are accepted, and never executed.

* `selectReadyTask_cases` — what is selected from a valid dag
* `run_executed` — a run of calls that return
-/

namespace Conversation

open Py Ledger Machine

/-! ## What is selected -/

/-- The tasks that a contract requires. -/
def required (e : PyVal) : List Str :=
  (texts (fieldOr e "preconditions" (.list []))).map beforeLastColon

/-- The task is `VERIFIED` in the dag. -/
def IsVerified (dag : List PyVal) (taskId : Str) : Prop :=
  ∃ e ∈ dag, hasStatus e .verified = true ∧ isText (field e "task_id") taskId = true

/-- All that the contract requires is `VERIFIED`. -/
def Satisfied (dag : List PyVal) (e : PyVal) : Prop := ∀ t ∈ required e, IsVerified dag t

section

variable {P : Platform} {σ : Type} {sys : System σ} {lib : ExecLib} {texts : Texts} {ids : List Str}
  {e e' entry : PyVal} {dag dag' dag₀ : List PyVal} {t taskId : Str}

theorem fieldOr_of_not_hasKey {key : String} {default : PyVal} (h : hasKey e key = false) :
    fieldOr e key default = default := by
  cases e with
  | dict items =>
    have hnone : getItem items (lit key) = none := by simpa [hasKey] using h
    show (getItem items (lit key)).getD default = default
    rw [hnone]
    rfl
  | _ => rfl

/-- An entry that is accepted and has a status is a contract. -/
theorem isContract_of_hasStatus (h : validateContract texts ids e = .ok [])
    (hstatus : hasKey e "status" = true) : isContract e = true := by
  by_contra hcontract
  have hkey : hasKey e "task_id" = false := by simpa [isContract] using hcontract
  unfold validateContract at h
  by_cases hdict : isDict e = false
  · rw [if_pos hdict] at h
    cases h
  rw [if_neg hdict, if_pos hkey] at h
  obtain ⟨unknown, hunknown, h⟩ := bind_eq_ok.mp h
  have hnil := Except.ok.inj h
  simp only [List.append_eq_nil_iff, complain_eq_nil, not_not] at hnil
  have hnone : unknownKeys e legacyFields = [] := sortKeys_eq_nil.mp (hnil.1 ▸ hunknown)
  cases e with
  | dict items =>
    have hmem : PyKey.str (lit "status") ∈ items.map Prod.fst := mem_keysOf hstatus
    have hknown := List.filter_eq_nil_iff.mp hnone _ hmem
    simp [legacyFields, lit_injective.eq_iff] at hknown
  | _ => exact hdict rfl

/-- The preconditions of a contract that is accepted, as `select_ready_task` reads them. -/
theorem iterate_preconditions (h : Accepted texts ids e) :
    Vesta.iterate (orElse (field e "preconditions") (.list [])) =
    .ok (elems (fieldOr e "preconditions" (.list []))) := by
  have hlist := (Bool.and_eq_true_iff.mp h.precondition.1).1
  cases e with
  | dict items =>
    have hfield (d : PyVal) : fieldOr (.dict items) "preconditions" d =
      (getItem items (lit "preconditions")).getD d := rfl
    unfold field
    rw [hfield] at hlist ⊢
    rw [hfield]
    cases hitem : getItem items (lit "preconditions") with
    | none => rfl
    | some v =>
      rw [hitem] at hlist
      cases v with
      | list xs => cases xs <;> rfl
      | _ => cases hlist
  | _ => rfl

/-- `all`, on texts. -/
theorem allVerified_texts (verified : List PyVal) : ∀ {ps : List PyVal}, ps.all isStr = true →
    allVerified verified ps =
    .ok (decide (∀ p ∈ ps.map textOf, (verified.any fun t => isText t (beforeLastColon p)) = true))
  | [], _ => by simp [allVerified]
  | p :: ps, h => by
    obtain ⟨hp, hps⟩ := Bool.and_eq_true_iff.mp h
    cases p with
    | str s =>
      unfold allVerified
      by_cases hs : (verified.any fun t => isText t (beforeLastColon s)) = true
      · rw [if_pos hs, allVerified_texts verified hps]
        simp only [List.map_cons, List.forall_mem_cons, textOf, hs, true_and]
      · rw [if_neg hs]
        have hnot : ¬ ∀ p ∈ (PyVal.str s :: ps).map textOf,
            (verified.any fun t => isText t (beforeLastColon p)) = true :=
          fun hall => hs (hall s List.mem_cons_self)
        rw [decide_eq_false hnot]
    | _ => cases hp

theorem any_verifiedIds :
    ((verifiedIds dag).any fun v => isText v t) = true ↔ IsVerified dag t := by
  unfold verifiedIds IsVerified
  simp

/-- What a contract of a valid dag waits for, as it is checked. -/
theorem allVerified_iff (dag : List PyVal) (h : Accepted texts ids e) : ∃ ready,
    allVerified (verifiedIds dag)
    (elems (fieldOr e "preconditions" (.list []))) = .ok ready ∧
    (ready = true ↔ Satisfied dag e) := by
  have htexts := (Bool.and_eq_true_iff.mp h.precondition.1).2
  refine ⟨_, allVerified_texts _ htexts, ?_⟩
  rw [decide_eq_true_iff]
  unfold Satisfied required Conversation.texts
  rw [List.forall_mem_map (f := beforeLastColon)]
  simp only [any_verifiedIds]

/-- One round of the loop. -/
theorem firstReady_cons (dag es : List PyVal) (h : isReady e = true → Accepted texts ids e) :
    (isReady e = true ∧ Satisfied dag e → firstReady (verifiedIds dag) (e :: es) = .ok (some e)) ∧
      (¬ (isReady e = true ∧ Satisfied dag e) → firstReady (verifiedIds dag) (e :: es) = firstReady
        (verifiedIds dag) es) := by
  by_cases hready : isReady e = true
  · obtain ⟨ready, hall, hiff⟩ := allVerified_iff dag (h hready)
    have hround : firstReady (verifiedIds dag) (e :: es) =
        if ready then .ok (some e) else firstReady (verifiedIds dag) es := by
      show (if isReady e = false then _ else _) = _
      rw [if_neg (by simp [hready]), iterate_preconditions (h hready)]
      show (allVerified (verifiedIds dag) (elems (fieldOr e "preconditions" (.list []))) >>= _) = _
      rw [hall]
      rfl
    rw [hround]
    constructor
    · rintro ⟨-, hsatisfied⟩
      rw [if_pos (hiff.mpr hsatisfied)]
    · intro hnot
      rw [if_neg fun hr => hnot ⟨hready, hiff.mp hr⟩]
  · refine ⟨fun hboth => absurd hboth.1 hready, fun _ => ?_⟩
    show (if isReady e = false then _ else _) = _
    rw [if_pos (by simpa using hready)]

/-- The loop of the selection. -/
theorem firstReady_cases : ∀ {es : List PyVal},
    (∀ e ∈ es, isReady e = true → Accepted texts ids e) →
    (firstReady (verifiedIds dag) es = .ok none ∧ ∀ e ∈ es, isReady e = true → ¬ Satisfied dag e) ∨
      ∃ e ∈ es, firstReady (verifiedIds dag) es = .ok (some e) ∧ isReady e = true ∧ Satisfied dag e
  | [], _ => .inl ⟨rfl, fun _ h => absurd h List.not_mem_nil⟩
  | e :: es, h => by
    obtain ⟨he, hes⟩ := List.forall_mem_cons.mp h
    obtain ⟨hhead, htail⟩ := firstReady_cons dag es he
    by_cases hselected : isReady e = true ∧ Satisfied dag e
    · exact .inr ⟨e, List.mem_cons_self, hhead hselected, hselected⟩
    · rw [htail hselected]
      rcases firstReady_cases hes with ⟨hnone, hwaits⟩ | ⟨e', hmem, hfirst, hready⟩
      · refine .inl
          ⟨hnone, List.forall_mem_cons.mpr
            ⟨fun hready hsatisfied => hselected ⟨hready, hsatisfied⟩, hwaits⟩⟩
      · exact .inr ⟨e', List.mem_cons_of_mem _ hmem, hfirst, hready⟩

/-- The contracts of a valid dag. -/
theorem accepted_of_status (h : validateDag texts (.list dag) = .ok []) (he : e ∈ dag)
    (hstatus : field e "status" ≠ .none) : Accepted texts (taskIds dag) e := by
  have hvalid := (validateDag_eq_nil h).entries e he
  exact validateContract_eq_nil hvalid (isContract_of_hasStatus hvalid (hasKey_of_get hstatus))

theorem field_ne_none {key : String} (h : isText (field e key) t = true) : field e key ≠ .none := by
  rw [isText_iff.mp h]
  exact fun hnone => by cases hnone

/-- **What is selected** from a valid dag: a contract that is `READY` and satisfied, where there is
one. -/
theorem selectReadyTask_cases (h : validateDag texts (.list dag) = .ok []) :
    (selectReadyTask dag = .ok none ∧ ∀ e ∈ dag, isReady e = true → ¬ Satisfied dag e) ∨
      ∃ e ∈ dag, selectReadyTask dag = .ok (some e) ∧ isReady e = true ∧ Satisfied dag e := by
  have hhashable : (verifiedIds dag).all hashable = true := by
    rw [List.all_eq_true]
    intro v hv
    obtain ⟨e, he, rfl⟩ := List.mem_map.mp hv
    obtain ⟨hmem, hverified⟩ := List.mem_filter.mp he
    rw [(accepted_of_status h hmem (field_ne_none hverified)).taskId_eq]
    rfl
  have hselect : selectReadyTask dag = firstReady (verifiedIds dag) dag := by
    unfold selectReadyTask
    rw [hhashable]
    rfl
  rw [hselect]
  exact firstReady_cases fun e he hready => accepted_of_status h he (field_ne_none hready)

end

/-! ## Runs -/

/-- A dag on its way, with the contracts that were executed and the dag each of them was selected
from. -/
structure DagState (σ : Type) where
  dag : List PyVal
  world : World σ
  executed : List (PyVal × List PyVal)

def DagState.start {σ : Type} (dag : List PyVal) (w : World σ) : DagState σ := ⟨dag, w, []⟩

section

variable (P : Platform) {σ : Type} (sys : System σ) (lib : ExecLib)

/-- A call of `advance_dag`; `none` where it raises. -/
def advance (s : DagState σ) (req : Request) : Option (DagState σ) :=
  match advanceDag P sys lib req s.dag s.world with
  | (.error _, _) => none
  | (.ok (dag, none), world) => some { s with dag, world }
  | (.ok (dag, some _), world) =>
    some { dag, world, executed := s.executed ++ (selected s.dag).map fun entry => (entry, s.dag) }
where
  selected (dag : List PyVal) : List PyVal :=
    match selectReadyTask dag with
    | .ok (some entry) => [entry]
    | _ => []

end

section

variable {P : Platform} {σ : Type} {sys : System σ} {lib : ExecLib} {s s' : DagState σ}
  {req : Request} {reqs : List Request} {dag₀ : List PyVal} {w₀ : World σ} {t : Str} {e e' : PyVal}

/-- Nothing is left to execute. -/
def Stopped (s : DagState σ) : Prop := selectReadyTask s.dag = .ok none

/-- **What a call does**: it executes what is selected, or there is nothing to execute. -/
theorem advance_cases (h : advance P sys lib s req = some s') : (Stopped s ∧ s' = s) ∨
    ∃ entry status world, selectReadyTask s.dag = .ok (some entry) ∧
      s' = ⟨updateDag (idOf entry) status s.dag, world, s.executed ++ [(entry, s.dag)]⟩ := by
  unfold advance at h
  rcases hcall : advanceDag P sys lib req s.dag s.world with ⟨e | ⟨dag, result⟩, world⟩
  · rw [hcall] at h
    cases h
  rw [hcall] at h
  unfold advanceDag at hcall
  rcases hselect : selectReadyTask s.dag with e | _ | entry <;> rw [hselect] at hcall
  · cases hcall
  · cases hcall
    cases h
    exact .inl ⟨hselect, rfl⟩
  dsimp only at hcall
  rcases hvalid : validateContract lib.toTexts (dagIds s.dag) entry with e | _
    | ⟨error, errors⟩ <;> rw [hvalid] at hcall
  · cases hcall
  · dsimp only at hcall
    rcases hexecute : executeContract P sys lib { req with dag := some s.dag, preTaskHead := none }
      entry s.world with
      ⟨e | result, world⟩ <;> rw [hexecute] at hcall
    · cases hcall
    dsimp only at hcall
    by_cases hdicts : s.dag.all isDict = true
    · rw [if_pos hdicts] at hcall
      cases hcall
      dsimp only [advance.selected] at h
      rw [hselect] at h
      cases h
      exact .inr ⟨entry, _, _, rfl, rfl⟩
    · rw [if_neg hdicts] at hcall
      cases hcall
  · cases hcall

/-- Every contract of the dag has a status of its own. -/
def StatesStatus (dag : List PyVal) : Prop := ∀ e ∈ dag, isContract e = true →
    hasKey e "status" = true

/-- What holds along a run on a dag. -/
structure OnWay (lib : ExecLib) (dag₀ : List PyVal) (s : DagState σ) : Prop where
  valid : validateDag lib.toTexts (.list s.dag) = .ok []
  same : SameButStatuses dag₀ s.dag
  explicit : StatesStatus s.dag
  nodup : (s.executed.map fun x => idOf x.1).Nodup
  ids : ∀ x ∈ s.executed, idOf x.1 ∈ taskIds dag₀
  done : ∀ x ∈ s.executed, ∀ e ∈ s.dag, isText (field e "task_id") (idOf x.1) = true →
    isReady e = false
  kept : List.Forall₂
    (fun e e' => (∀ x ∈ s.executed, isText (field e "task_id") (idOf x.1) = false) → e' = e)
    dag₀ s.dag
  order : ∀ x ∈ s.executed, x.1 ∈ x.2 ∧ Satisfied x.2 x.1

theorem onWay_start (hvalid : validateDag lib.toTexts (.list dag₀) = .ok [])
    (hexplicit : StatesStatus dag₀) :
    OnWay lib dag₀ (.start dag₀ w₀) where
  valid := hvalid
  same := List.forall₂_same.mpr fun e _ => .refl e
  explicit := hexplicit
  nodup := List.nodup_nil
  ids _ h := absurd h List.not_mem_nil
  done _ h := absurd h List.not_mem_nil
  kept := List.forall₂_same.mpr fun _ _ _ => rfl
  order _ h := absurd h List.not_mem_nil

/-- The id of a contract is one of the ids of its dag. -/
theorem mem_taskIds {dag : List PyVal} (he : e ∈ dag) (hid : isFilled (field e "task_id") = true) :
    idOf e ∈ taskIds dag :=
  List.mem_map.mpr ⟨e, List.mem_filter.mpr ⟨he, hid⟩, rfl⟩

theorem status_text_mem (status : ExecStatus) :
    isOneOf (.str status.text) validStatuses = true := by
  cases status <;> decide

theorem not_isReady_status {status : ExecStatus} (h : field e "status" = .str status.text) :
    isReady e = false := by
  unfold isReady
  rw [h]
  cases status <;> decide

theorem status_valid {texts : Texts} {ids : List Str} (h : validateContract texts ids e = .ok []) :
    isOneOf (fieldOr e "status" (.str (lit "READY"))) validStatuses = true := by
  by_cases hcontract : isContract e = true
  · exact (validateContract_eq_nil h hcontract).status_mem
  · -- the legacy form has no status
    have hnone : hasKey e "status" = false := by
      by_contra hkey
      exact hcontract (isContract_of_hasStatus h (by simpa using hkey))
    rw [fieldOr_of_not_hasKey hnone]
    decide

theorem hasStatus_setStatus {status : ExecStatus} (h : isDict e = true) :
    hasKey (setStatus status e) "status" = true := by
  cases e with
  | dict items =>
    show (getItem (Tasks.setItem _ _ _) _).isSome = true
    rw [getItem_setItem, if_pos rfl]
    rfl
  | _ => cases h

theorem forall₂_imp_mem {α β : Type} {R S : α → β → Prop} {xs : List α} {ys : List β}
    (h : List.Forall₂ R xs ys) (himp : ∀ x, ∀ y ∈ ys, R x y → S x y) : List.Forall₂ S xs ys := by
  induction h with
  | nil => exact .nil
  | cons hR _ ih =>
    exact .cons (himp _ _ List.mem_cons_self hR)
      (ih fun x y hy => himp x y (List.mem_cons_of_mem _ hy))

/-- An entry after a status is written into the dag. -/
def updated (taskId : Str) (status : ExecStatus) (e : PyVal) : PyVal :=
  if isText (field e "task_id") taskId then setStatus status e else e

theorem sameBut_updated {status : ExecStatus} {dag : List PyVal} (hexplicit : StatesStatus dag)
    (he : e ∈ dag) : SameBut e (updated t status e) := by
  unfold updated
  by_cases hid : isText (field e "task_id") t = true
  · rw [if_pos hid]
    exact sameBut_setStatus (hexplicit e he (hasKey_of_get (field_ne_none hid)))
  · rw [if_neg hid]
    exact .refl e

/-- **A call keeps what holds along a run.** -/
theorem OnWay.advance (h : OnWay lib dag₀ s)
    (hstep : Conversation.advance P sys lib s req = some s') : OnWay lib dag₀ s' := by
  rcases advance_cases hstep with ⟨-, rfl⟩ | ⟨entry, status, world, hselect, rfl⟩
  · exact h
  -- what is selected is `READY`, and its preconditions hold
  have hselected : entry ∈ s.dag ∧ isReady entry = true ∧ Satisfied s.dag entry := by
    rcases selectReadyTask_cases h.valid with ⟨hnone, -⟩ | ⟨e, he, hsome, hready⟩
    · rw [hselect] at hnone
      cases hnone
    · rw [hselect] at hsome
      obtain rfl := Option.some.inj (Except.ok.inj hsome)
      exact ⟨he, hready⟩
  obtain ⟨hmem, hready, hsatisfied⟩ := hselected
  have haccepted := accepted_of_status h.valid hmem (field_ne_none hready)
  have hid : isText (field entry "task_id") (idOf entry) = true :=
    isText_iff.mpr haccepted.taskId_eq
  have hdag : updateDag (idOf entry) status s.dag = s.dag.map (updated (idOf entry) status) := rfl
  have hsame : SameButStatuses s.dag (s.dag.map (updated (idOf entry) status)) :=
    List.forall₂_map_right_iff.mpr (List.forall₂_same.mpr fun e he => sameBut_updated h.explicit he)
  constructor <;> dsimp only <;> try rw [hdag]
  case valid =>
    refine validateDag_congr hsame (fun e' he' => ?_) h.valid
    obtain ⟨e, he, rfl⟩ := List.mem_map.mp he'
    have hvalid := (validateDag_eq_nil h.valid).entries e he
    unfold updated
    by_cases hmatch : isText (field e "task_id") (idOf entry) = true
    · rw [if_pos hmatch, status_setStatus (isDict_of_hasKey (hasKey_of_get (field_ne_none hmatch)))]
      exact status_text_mem status
    · rw [if_neg hmatch]
      exact status_valid hvalid
  case same =>
    exact List.forall₂_map_right_iff.mpr (forall₂_imp_mem h.same fun _ e he hboth =>
      hboth.trans (sameBut_updated h.explicit he))
  case explicit =>
    intro e' he' hcontract
    obtain ⟨e, he, rfl⟩ := List.mem_map.mp he'
    unfold updated at hcontract ⊢
    by_cases hmatch : isText (field e "task_id") (idOf entry) = true
    · rw [if_pos hmatch]
      exact hasStatus_setStatus (isDict_of_hasKey (hasKey_of_get (field_ne_none hmatch)))
    · rw [if_neg hmatch] at hcontract ⊢
      exact h.explicit e he hcontract
  -- a task that has run is not ready again
  case nodup =>
    rw [List.map_append, List.map_singleton]
    refine List.Nodup.append h.nodup (List.nodup_singleton _)
      (List.disjoint_singleton.mpr fun hold => ?_)
    obtain ⟨x, hx, hsameId⟩ := List.mem_map.mp hold
    have hdone := h.done x hx entry hmem (by rw [hsameId]; exact hid)
    rw [hready] at hdone
    cases hdone
  case ids =>
    intro x hx
    rcases List.mem_append.mp hx with hx | hx
    · exact h.ids x hx
    · obtain rfl := List.mem_singleton.mp hx
      rw [← h.same.taskIds]
      exact mem_taskIds hmem haccepted.taskId
  case done =>
    intro x hx e' he' hxid
    obtain ⟨e, he, rfl⟩ := List.mem_map.mp he'
    have hsameId : field (updated (idOf entry) status e) "task_id" = field e "task_id" :=
      (sameBut_updated h.explicit he).fieldOr "task_id" .none (by decide)
    rw [hsameId] at hxid
    unfold updated
    by_cases hmatch : isText (field e "task_id") (idOf entry) = true
    · rw [if_pos hmatch]
      exact not_isReady_status
        (status_setStatus (isDict_of_hasKey (hasKey_of_get (field_ne_none hmatch))) .none)
    · rw [if_neg hmatch]
      rcases List.mem_append.mp hx with hx | hx
      · exact h.done x hx e he hxid
      · obtain rfl := List.mem_singleton.mp hx
        exact absurd hxid hmatch
  case kept =>
    refine List.forall₂_map_right_iff.mpr (forall₂_imp_mem h.kept fun e e' _ hkept hnone => ?_)
    obtain rfl := hkept fun x hx => hnone x (List.mem_append_left _ hx)
    have hother := hnone (entry, s.dag) (List.mem_append_right _ List.mem_cons_self)
    unfold updated
    rw [if_neg (by rw [hother]; decide)]
  case order =>
    intro x hx
    rcases List.mem_append.mp hx with hx | hx
    · exact h.order x hx
    · obtain rfl := List.mem_singleton.mp hx
      exact ⟨hmem, hsatisfied⟩

/-! ## What is left -/

/-- A contract that is `READY` waits for a task. -/
def WaitsFor (dag : List PyVal) (c t : Str) : Prop :=
  ∃ e ∈ dag, isReady e = true ∧ isText (field e "task_id") c = true ∧ t ∈ required e

/-- No contract waits for itself, be it by way of others. -/
def NoCircle (dag : List PyVal) : Prop := ∀ t, ¬ Relation.TransGen (WaitsFor dag) t t

/-- The task has ended, and not with `VERIFIED`. -/
def EndedUnverified (dag : List PyVal) (t : Str) : Prop :=
  ∃ e ∈ dag, isText (field e "task_id") t = true ∧ isReady e = false ∧ hasStatus e .verified = false

/-- The contract has been executed. -/
def Executed (s : DagState σ) (e : PyVal) : Prop :=
  ∃ x ∈ s.executed, isText (field e "task_id") (idOf x.1) = true

theorem forall₂_and {α β : Type} {R S : α → β → Prop} {xs : List α} {ys : List β}
    (h : List.Forall₂ R xs ys)
    (h' : List.Forall₂ S xs ys) : List.Forall₂ (fun x y => R x y ∧ S x y) xs ys := by
  induction h with
  | nil => exact .nil
  | cons hR _ ih =>
    cases h' with
    | cons hS htail => exact .cons ⟨hR, hS⟩ (ih htail)

/-- What a contract requires is in its dag. -/
theorem required_mem {texts : Texts} {ids : List Str} (h : Accepted texts ids e)
    (ht : t ∈ required e) : t ∈ ids := by
  obtain ⟨p, hp, rfl⟩ := List.mem_map.mp ht
  obtain ⟨hcolon, hmem, -⟩ := h.precondition.2 p hp
  unfold beforeLastColon
  rw [if_pos hcolon]
  exact hmem

/-- A contract that is left waits for a task that has ended, or for one that is left, too. -/
theorem OnWay.blocked (h : OnWay lib dag₀ s) (hstopped : Stopped s) (he : e ∈ dag₀)
    (hready : isReady e = true)
    (hleft : ¬ Executed s e) : ∃ t ∈ required e, EndedUnverified s.dag t ∨
      ∃ e₂ ∈ dag₀, isText (field e₂ "task_id") t = true ∧ isReady e₂ = true ∧ ¬ Executed s e₂ := by
  have hpairs := forall₂_and h.same h.kept
  have hkept {e e' : PyVal} (hleft : ¬ Executed s e)
      (hpair : (∀ x ∈ s.executed, isText (field e "task_id") (idOf x.1) = false) → e' = e)
      : e' = e :=
    hpair fun x hx => by
      by_contra hid
      exact hleft ⟨x, hx, by simpa using hid⟩
  obtain ⟨e', he', -, hpair⟩ := exists_of_forall₂_mem (List.Forall₂.flip hpairs) he
  obtain rfl := hkept hleft hpair
  have haccepted := accepted_of_status h.valid he' (field_ne_none hready)
  -- it was not selected, so something that it requires is not verified
  have hwaits : ¬ Satisfied s.dag e' := by
    rcases selectReadyTask_cases h.valid with ⟨-, hnone⟩ | ⟨e₁, -, hsome, -⟩
    · exact hnone e' he' hready
    · rw [hstopped] at hsome
      cases hsome
  obtain ⟨t, ht⟩ := not_forall.mp hwaits
  obtain ⟨htrequired, hunverified⟩ := Classical.not_imp.mp ht
  refine ⟨t, htrequired, ?_⟩
  obtain ⟨e₂', he₂', hid⟩ := exists_of_mem_taskIds (required_mem haccepted htrequired)
  by_cases hready₂ : isReady e₂' = true
  · obtain ⟨e₂, he₂, hsame, hpair₂⟩ := exists_of_forall₂_mem hpairs he₂'
    have hsameId : field e₂' "task_id" = field e₂ "task_id" :=
      hsame.fieldOr "task_id" .none (by decide)
    have hleft₂ : ¬ Executed s e₂ := by
      rintro ⟨x, hx, hxid⟩
      have hdone := h.done x hx e₂' he₂' (by rw [hsameId]; exact hxid)
      rw [hready₂] at hdone
      cases hdone
    obtain rfl := hkept hleft₂ hpair₂
    exact .inr ⟨e₂', he₂, hid, hready₂, hleft₂⟩
  · refine .inl ⟨e₂', he₂', hid, by simpa using hready₂, ?_⟩
    by_contra hverified
    exact hunverified ⟨e₂', he₂', by simpa using hverified, hid⟩

/-- **What is left waits for a task that has ended**: the chain of what is left is no circle. -/
theorem OnWay.root (h : OnWay lib dag₀ s) (hstopped : Stopped s) (hcircle : NoCircle dag₀)
    (hvalid : validateDag lib.toTexts (.list dag₀) = .ok []) (he : e ∈ dag₀)
    (hready : isReady e = true)
    (hleft : ¬ Executed s e) :
    ∃ t, Relation.TransGen (WaitsFor dag₀) (idOf e) t ∧ EndedUnverified s.dag t := by
  let later : {t // t ∈ taskIds dag₀} → {t // t ∈ taskIds dag₀} → Prop := fun a b =>
    Relation.TransGen (WaitsFor dag₀) b.1 a.1
  have htrans : IsTrans _ later := ⟨fun a b c hab hbc => hbc.trans hab⟩
  have hirrefl : Std.Irrefl later := ⟨fun a haa => hcircle a.1 haa⟩
  have hwf : WellFounded later := Finite.wellFounded_of_trans_of_irrefl later
  have hid {e : PyVal} (he : e ∈ dag₀) (hready : isReady e = true) :
      idOf e ∈ taskIds dag₀ ∧ isText (field e "task_id") (idOf e) = true := by
    have haccepted := accepted_of_status hvalid he (field_ne_none hready)
    exact ⟨mem_taskIds he haccepted.taskId, isText_iff.mpr haccepted.taskId_eq⟩
  have hall : ∀ a : {t // t ∈ taskIds dag₀}, ∀ e ∈ dag₀, idOf e = a.1 → isReady e = true →
    ¬ Executed s e →
      ∃ t, Relation.TransGen (WaitsFor dag₀) (idOf e) t ∧ EndedUnverified s.dag t := by
    intro a
    induction a using hwf.induction with
    | _ a ih =>
      intro e he hea hready hleft
      obtain ⟨t, ht, hended | ⟨e₂, he₂, hid₂, hready₂, hleft₂⟩⟩ :=
        h.blocked hstopped he hready hleft
      · exact ⟨t, .single ⟨e, he, hready, (hid he hready).2, ht⟩, hended⟩
      · have hedge : WaitsFor dag₀ (idOf e) (idOf e₂) :=
          ⟨e, he, hready, (hid he hready).2, (idOf_eq hid₂).symm ▸ ht⟩
        obtain ⟨u, hchain, hended⟩ := ih ⟨idOf e₂, (hid he₂ hready₂).1⟩ (by
          show Relation.TransGen _ a.1 (idOf e₂)
          rw [← hea]
          exact .single hedge) e₂ he₂ rfl hready₂ hleft₂
        exact ⟨u, .head hedge hchain, hended⟩
  exact hall ⟨idOf e, (hid he hready).1⟩ e he rfl hready hleft

/-- An executed contract for each call, until there is nothing left. -/
theorem run_onWay (hvalid : validateDag lib.toTexts (.list dag₀) = .ok [])
    (hexplicit : StatesStatus dag₀) (h : run (advance P sys lib) (.start dag₀ w₀) reqs = some s) :
    OnWay lib dag₀ s ∧ (s.executed.length = reqs.length ∨ Stopped s) := by
  refine run_induction (P := fun (reqs : List Request) (s : DagState σ) => OnWay lib dag₀ s ∧
    (s.executed.length = reqs.length ∨ Stopped s)) ⟨onWay_start hvalid hexplicit, .inl rfl⟩ ?_ h
  rintro reqs s req s' - ⟨honWay, hcount⟩ hstep
  refine ⟨honWay.advance hstep, ?_⟩
  rcases advance_cases hstep with ⟨hstopped, rfl⟩ | ⟨entry, status, world, hselect, rfl⟩
  · exact .inr hstopped
  · rcases hcount with hcount | hstopped
    · left
      simp [hcount]
    · rw [Stopped, hselect] at hstopped
      cases hstopped

theorem OnWay.executed_subset (h : OnWay lib dag₀ s) :
    (s.executed.map fun x => idOf x.1) ⊆ taskIds dag₀ := by
  intro t ht
  obtain ⟨x, hx, rfl⟩ := List.mem_map.mp ht
  exact h.ids x hx

/-- Where as many contracts were executed as there are, none is left. -/
theorem OnWay.stopped (h : OnWay lib dag₀ s) (hcount : (taskIds dag₀).length ≤ s.executed.length) :
    Stopped s := by
  rcases selectReadyTask_cases h.valid with ⟨hnone, -⟩ | ⟨e, he, -, hready, -⟩
  · exact hnone
  · have haccepted := accepted_of_status h.valid he (field_ne_none hready)
    have hnew : idOf e ∉ s.executed.map fun x => idOf x.1 := by
      intro hold
      obtain ⟨x, hx, hid⟩ := List.mem_map.mp hold
      have hdone := h.done x hx e he (by rw [hid]; exact isText_iff.mpr haccepted.taskId_eq)
      rw [hready] at hdone
      cases hdone
    have hmem : idOf e ∈ taskIds dag₀ := h.same.taskIds ▸ mem_taskIds he haccepted.taskId
    have hsub :=
      List.subperm_of_subset (List.nodup_cons.mpr ⟨hnew, h.nodup⟩)
      (List.cons_subset.mpr ⟨hmem, h.executed_subset⟩)
    have hlength := hsub.length_le
    rw [List.length_cons, List.length_map] at hlength
    omega

/-- A contract that is `READY` for the validation, by its own word or by the default. -/
def PassesForReady (e : PyVal) : Prop :=
  isContract e = true ∧ isText (fieldOr e "status" (.str (lit "READY"))) (lit "READY") = true

/-- **A run on a valid dag** whose contracts state their status, and do not wait in a circle. -/
theorem run_executed (hvalid : validateDag lib.toTexts (.list dag₀) = .ok [])
    (hexplicit : StatesStatus dag₀)
    (hcircle : NoCircle dag₀) (h : run (advance P sys lib) (.start dag₀ w₀) reqs = some s) :
    (s.executed.map fun x => idOf x.1).Nodup ∧ s.executed.length ≤ (taskIds dag₀).length ∧
      (∀ x ∈ s.executed, x.1 ∈ x.2 ∧ Satisfied x.2 x.1) ∧
      validateDag lib.toTexts (.list s.dag) = .ok [] ∧
      ((taskIds dag₀).length ≤ reqs.length → Stopped s) ∧
      (Stopped s → ∀ e ∈ dag₀, PassesForReady e → Executed s e ∨
        ∃ t, Relation.TransGen (WaitsFor dag₀) (idOf e) t ∧ EndedUnverified s.dag t) := by
  obtain ⟨honWay, hcount⟩ := run_onWay hvalid hexplicit h
  refine ⟨honWay.nodup, ?_, honWay.order, honWay.valid, fun henough => ?_,
    fun hstopped e he hpasses => ?_⟩
  · have hlength := (List.subperm_of_subset honWay.nodup honWay.executed_subset).length_le
    rwa [List.length_map] at hlength
  · rcases hcount with hcount | hstopped
    · exact honWay.stopped (hcount ▸ henough)
    · exact hstopped
  · by_cases hleft : Executed s e
    · exact .inl hleft
    · have hready : isReady e = true := by
        have hkey := hexplicit e he hpasses.1
        have hstatus := hpasses.2
        cases e with
        | dict items =>
          have hsome : (getItem items (lit "status")).isSome = true := hkey
          obtain ⟨v, hv⟩ := Option.isSome_iff_exists.mp hsome
          have hfield (d : PyVal) : fieldOr (.dict items) "status" d = v := by
            show (getItem items (lit "status")).getD d = v
            rw [hv]
            rfl
          rw [hfield] at hstatus
          show isText (fieldOr (.dict items) "status" .none) (lit "READY") = true
          rw [hfield]
          exact hstatus
        | _ => cases hkey
      exact .inr (honWay.root hstopped hcircle hvalid he hready hleft)

end

/-! ## A contract without a status -/

/-- A contract that states its status, and expects the file `out.txt`. -/
def statedContract (taskId : String) (preconditions : List String) : PyVal :=
  object [("task_id", .str (lit taskId)), ("objective", .str (lit "o")), ("skill", .str (lit "s")),
    ("status", .str (lit "READY")), ("expected_output", expectsOut),
    ("preconditions", .list (preconditions.map fun text => .str (lit text)))]

/-- Two contracts, the first of which waits for the second. -/
def statedDag : List PyVal := [statedContract "t2" ["t1:VERIFIED"], statedContract "t1" []]

theorem waitsFor_statedDag {c t : Str} (h : WaitsFor statedDag c t) :
    c = lit "t2" ∧ t = lit "t1" := by
  obtain ⟨e, he, -, hc, ht⟩ := h
  rcases List.mem_pair.mp he with rfl | rfl
  · have hrequired : required (statedContract "t2" ["t1:VERIFIED"]) = [lit "t1"] := by
      decide +kernel
    rw [hrequired] at ht
    exact ⟨(of_decide_eq_true hc).symm, List.mem_singleton.mp ht⟩
  · have hrequired : required (statedContract "t1" []) = [] := by decide +kernel
    rw [hrequired] at ht
    cases ht

/-- The second contract is executed first, ends `VERIFIED`, and lets the first one be executed. -/
theorem run_executed_stated : ∃ s,
    run (advance backwards idle .plain) (.start statedDag (.start [[lit "root", lit "out.txt"]]))
        [rootRequest, rootRequest] = some s ∧
    s.executed.map (fun x => idOf x.1) = [lit "t1", lit "t2"] ∧
    (Stopped s → ∀ e ∈ statedDag, PassesForReady e → Executed s e ∨
      ∃ t, Relation.TransGen (WaitsFor statedDag) (idOf e) t ∧ EndedUnverified s.dag t) := by
  have hok : (run (advance backwards idle .plain)
      (.start statedDag (.start [[lit "root", lit "out.txt"]])) [rootRequest, rootRequest]).map
        (fun s => s.executed.map fun x => idOf x.1) = some [lit "t1", lit "t2"] := by decide +kernel
  obtain ⟨s, hs, hexecuted⟩ := Option.map_eq_some_iff.mp hok
  have hvalid : (validateDag ExecLib.plain.toTexts (.list statedDag)).toOption = some [] := by
    decide +kernel
  have hexplicit : StatesStatus statedDag := by
    intro e he _
    rcases List.mem_pair.mp he with rfl | rfl
    · decide +kernel
    · decide +kernel
  have hcircle : NoCircle statedDag := by
    intro t hloop
    obtain ⟨u, hwaits, hrest⟩ := Relation.TransGen.head'_iff.mp hloop
    obtain ⟨rfl, rfl⟩ := waitsFor_statedDag hwaits
    -- what is waited for waits for nothing
    rcases hrest.cases_head with heq | ⟨v, hwaits', -⟩
    · exact absurd heq (by decide)
    · exact absurd (waitsFor_statedDag hwaits').1 (by decide)
  exact ⟨s, hs, hexecuted,
    (run_executed (toOption_eq_some.mp hvalid) hexplicit hcircle hs).2.2.2.2.2⟩

/-- A contract without a status is accepted, and nothing is selected. -/
theorem not_run_executed : ¬ ∀ (P : Platform) (σ : Type) (sys : System σ) (lib : ExecLib)
    (dag₀ : List PyVal) (w₀ : World σ)
    (reqs : List Request) (s : DagState σ), validateDag lib.toTexts (.list dag₀) = .ok [] →
      run (advance P sys lib) (.start dag₀ w₀) reqs = some s → Stopped s → ∀ e ∈ dag₀,
      PassesForReady e → Executed s e ∨
        ∃ t, Relation.TransGen (WaitsFor dag₀) (idOf e) t ∧ EndedUnverified s.dag t := by
  intro h
  have hvalid : (validateDag ExecLib.plain.toTexts (.list [contractWith "rollback" .none])).toOption
    = some [] := by decide +kernel
  have hpasses : PassesForReady (contractWith "rollback" .none) := by
    constructor <;> decide +kernel
  rcases h backwards _ idle .plain [contractWith "rollback" .none] (.start [])
    [] _ (toOption_eq_some.mp hvalid) rfl rfl
    _ List.mem_cons_self hpasses with ⟨x, hx, -⟩ | ⟨t, hchain, -⟩
  · cases hx
  · obtain ⟨u, ⟨e, he, hready, -⟩, -⟩ := Relation.TransGen.head'_iff.mp hchain
    obtain rfl := List.mem_singleton.mp he
    have hnot : isReady (contractWith "rollback" .none) = false := by decide +kernel
    rw [hnot] at hready
    cases hready

end Conversation
