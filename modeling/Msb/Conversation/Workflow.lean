import Msb.Conversation.TaskContract
import Msb.Infra.Climb
import Msb.Infra.PyReload

/-!
# Workflows

`validate_workflow`: the dag of a workflow with its goal and its step tracker. The value may be any
JSON.

The parent of a task is complained about where it is no text, and then the chains of the parents are
walked all the same: a parent that is a list or an object is no key of a dict. The inputs are looked
up among the ids of the whole dag.

* `depthOf_error_iff` — when the walk raises
* `validateWorkflow_eq_nil_iff` — which workflows are accepted
* `workflow_law` — when the validator does what its rules say
-/

namespace Conversation

open Py Ledger Climb

/-! ## The validator -/

/-- The errors of the step tracker. -/
def trackerErrors (workflow : PyVal) : List Str :=
  let tracker := field workflow "step_tracker"
  if isNull tracker then []
  else if isDict tracker = false then [lit "workflow.step_tracker must be an object"]
  else complain (hasKey tracker "required_steps" = true ∧
    isTextList (field tracker "required_steps") = false)
    (lit "workflow.step_tracker.required_steps must be a list of strings")

/-- `validate_workflow` -/
def validateWorkflow (lib : Texts) (workflow : PyVal) : Except PyError (List Str) :=
  if isDict workflow = false then .ok [lit "workflow must be an object"]
  else do
    let goalErrors :=
      complain (isFilled (field workflow "goal") = false)
      (lit "workflow.goal must be a non-empty string")
    let dagErrors ← validateDag lib (fieldOr workflow "dag" (.list []))
    .ok (goalErrors ++ dagErrors ++ trackerErrors workflow)

/-! ## Chains of parents -/

/-- The parent of a task, where it is a text. -/
def textParent (dag : List PyVal) (taskId : Str) : Option Str :=
  match parentOf dag taskId with
  | .str p => some p
  | _ => none

/-- A value that is no key: a list or an object. -/
def isUnhashable : PyVal → Bool
  | .list _ | .dict _ => true
  | _ => false

/-- The chain of the parents of a task comes to a parent that is no key. -/
def MeetsUnhashable (dag : List PyVal) (taskId : Str) : Prop :=
  ∃ k u, climb (textParent dag) k taskId = some u ∧ isUnhashable (parentOf dag u) = true

section

variable {dag : List PyVal} {t u p : Str} {fuel d n k : ℕ} {seen : List Str} {e : PyError}

theorem textParent_eq_some : textParent dag t = some p ↔ parentOf dag t = .str p := by
  unfold textParent
  cases parentOf dag t <;> simp

theorem depthFrom_text (hfresh : t ∉ seen) :
    depthFrom dag (fuel + 1) seen (.str t) d = depthFrom dag fuel (t :: seen) (parentOf dag t)
    (d + 1) := by
  rw [depthFrom]
  simp [hfresh]

theorem depthFrom_error : ∀ {fuel : ℕ} {seen : List Str} {t : Str} {d : ℕ},
    depthFrom dag fuel seen (.str t) d = .error e → MeetsUnhashable dag t
  | 0, _, _, _, h => by cases h
  | fuel + 1, seen, t, d, h => by
    by_cases hseen : t ∈ seen
    · rw [depthFrom] at h
      simp [hseen] at h
    rw [depthFrom_text hseen] at h
    cases hparent : parentOf dag t with
    | str p =>
      rw [hparent] at h
      obtain ⟨k, u, hk, hu⟩ := depthFrom_error h
      exact ⟨k + 1, u, by rw [climb_succ_of_some (textParent_eq_some.mpr hparent), hk], hu⟩
    | list xs => exact ⟨0, t, rfl, by rw [hparent]; rfl⟩
    | dict items => exact ⟨0, t, rfl, by rw [hparent]; rfl⟩
    | _ =>
      rw [hparent] at h
      cases fuel <;> cases h

/-- With fuel for the whole chain. The tasks that were seen come before the task in a chain that
ends. -/
theorem depthFrom_unhashable {m : ℕ} : ∀ {k fuel : ℕ} {seen : List Str} {t : Str} {d : ℕ},
    climb (textParent dag) k t = some u → isUnhashable (parentOf dag u) = true → k + 2 ≤ fuel →
      climb (textParent dag) m t = none →
      (∀ s ∈ seen, ∃ j, 0 < j ∧ climb (textParent dag) j s = some t) →
        depthFrom dag fuel seen (.str t) d = .error .typeError
  | _, 0, _, _, _, _, _, hfuel, _, _ => absurd hfuel (by omega)
  | k, fuel + 1, seen, t, d, hu, hbad, hfuel, hend, hseen => by
    have hfresh : t ∉ seen := fun hmem => by
      obtain ⟨j, hj, hcycle⟩ := hseen t hmem
      exact climb_ne_none_of_cycle hj hcycle m hend
    rw [depthFrom_text hfresh]
    cases k with
    | zero =>
      obtain rfl := Option.some.inj hu
      obtain ⟨fuel, rfl⟩ := Nat.exists_eq_add_of_le' (show 1 ≤ fuel by omega)
      cases hparent : parentOf dag t <;> first | rfl | (rw [hparent] at hbad; cases hbad)
    | succ k =>
      cases hparent : textParent dag t with
      | none =>
        rw [climb_succ_of_none hparent] at hu
        cases hu
      | some p =>
        rw [climb_succ_of_some hparent] at hu
        rw [textParent_eq_some.mp hparent]
        refine depthFrom_unhashable (m := m) hu hbad (by omega) ?_
          (List.forall_mem_cons.mpr ⟨⟨1, Nat.one_pos, ?_⟩, fun s hs => ?_⟩)
        · have hlater := climb_eq_none_of_le hend (Nat.le_succ m)
          rwa [climb_succ_of_some hparent] at hlater
        · rw [climb_succ_of_some hparent]
          rfl
        · obtain ⟨j, hj, hs⟩ := hseen s hs
          exact ⟨j + 1, Nat.succ_pos j, (climb_succ_last hs).trans hparent⟩

/-- Who has a parent is an entry of the dag. -/
theorem mem_of_textParent (h : (textParent dag t).isSome = true) :
    t ∈ dag.map fun e => textOf (field e "task_id") := by
  obtain ⟨p, hp⟩ := Option.isSome_iff_exists.mp h
  have hparent := textParent_eq_some.mp hp
  unfold parentOf at hparent
  cases hfind : dag.reverse.find? fun e => isText (field e "task_id") t with
  | none =>
    rw [hfind] at hparent
    cases hparent
  | some entry =>
    have hid := List.find?_some hfind
    have hmem := List.mem_reverse.mp (List.mem_of_find?_eq_some hfind)
    exact List.mem_map.mpr ⟨entry, hmem, idOf_eq hid⟩

/-- **When the walk along the parents raises.** -/
theorem depthOf_error_iff : (∃ e, depthOf dag t = .error e) ↔ MeetsUnhashable dag t := by
  constructor
  · rintro ⟨e, h⟩
    exact depthFrom_error h
  · rintro ⟨k, u, hu, hbad⟩
    have hnone : textParent dag u = none := by
      unfold textParent
      cases hparent : parentOf dag u <;> first | rfl | (rw [hparent] at hbad; cases hbad)
    have hend : climb (textParent dag) (k + 1) t = none := (climb_succ_last hu).trans hnone
    have hlength := climb_length_le (fun c hc => mem_of_textParent hc) hend hu
    rw [List.length_map] at hlength
    exact ⟨.typeError, depthFrom_unhashable hu hbad (by omega) hend fun s hs =>
      absurd hs List.not_mem_nil⟩

/-- A walk that ends within the cap does not go back. -/
theorem depthFrom_lt : ∀ {fuel : ℕ} {seen : List Str} {v : PyVal} {d n : ℕ},
    depthFrom dag fuel seen v (d + 1) = .ok n → n ≤ maxDagDepth → d < n
  | 0, _, _, _, _, h, hn => by
    obtain rfl := Except.ok.inj h
    exact absurd hn (by decide)
  | fuel + 1, seen, v, d, n, h, hn => by
    cases v with
    | str t =>
      by_cases hseen : t ∈ seen
      · rw [depthFrom] at h
        simp only [hseen, if_true] at h
        obtain rfl := Except.ok.inj h
        exact absurd hn (by decide)
      · rw [depthFrom_text hseen] at h
        have := depthFrom_lt h hn
        omega
    | list xs => cases h
    | dict items => cases h
    | _ =>
      obtain rfl := Except.ok.inj h
      omega

/-- **The depth of a task bounds its chain.** -/
theorem depthFrom_climb : ∀ {k fuel : ℕ} {seen : List Str} {t : Str} {d n : ℕ},
    depthFrom dag fuel seen (.str t) d = .ok n →
    n ≤ maxDagDepth → climb (textParent dag) k t = some u → d + k < n
  | _, 0, _, _, _, _, h, hn, _ => by
    obtain rfl := Except.ok.inj h
    exact absurd hn (by decide)
  | k, fuel + 1, seen, t, d, n, h, hn, hu => by
    have hfresh : t ∉ seen := fun hmem => by
      rw [depthFrom] at h
      simp only [hmem, if_true] at h
      obtain rfl := Except.ok.inj h
      exact absurd hn (by decide)
    rw [depthFrom_text hfresh] at h
    cases k with
    | zero => exact depthFrom_lt h hn
    | succ k =>
      cases hparent : textParent dag t with
      | none =>
        rw [climb_succ_of_none hparent] at hu
        cases hu
      | some p =>
        rw [climb_succ_of_some hparent] at hu
        rw [textParent_eq_some.mp hparent] at h
        have := depthFrom_climb h hn hu
        omega

/-- A chain that ends within `k` steps, its parents texts. -/
theorem depthFrom_ok {m : ℕ} (htext : ∀ u, parentOf dag u = .none ∨ ∃ p, parentOf dag u = .str p) :
    ∀ {k fuel : ℕ} {seen : List Str} {t : Str} {d : ℕ}, climb (textParent dag) k t = none →
    k + 1 ≤ fuel →
      climb (textParent dag) m t = none →
      (∀ s ∈ seen, ∃ j, 0 < j ∧ climb (textParent dag) j s = some t) →
        ∃ n, depthFrom dag fuel seen (.str t) d = .ok n ∧ n ≤ d + k
  | 0, _, _, _, _, h, _, _, _ => by cases h
  | _, 0, _, _, _, _, hfuel, _, _ => absurd hfuel (by omega)
  | k + 1, fuel + 1, seen, t, d, h, hfuel, hend, hseen => by
    have hfresh : t ∉ seen := fun hmem => by
      obtain ⟨j, hj, hcycle⟩ := hseen t hmem
      exact climb_ne_none_of_cycle hj hcycle m hend
    rw [depthFrom_text hfresh]
    rcases htext t with hparent | ⟨p, hparent⟩
    · obtain ⟨fuel, rfl⟩ := Nat.exists_eq_add_of_le' (show 1 ≤ fuel by omega)
      rw [hparent]
      exact ⟨d + 1, rfl, by omega⟩
    · have hp := textParent_eq_some.mpr hparent
      rw [hparent]
      rw [climb_succ_of_some hp] at h
      have hlater := climb_eq_none_of_le hend (Nat.le_succ m)
      rw [climb_succ_of_some hp] at hlater
      have hseen' : ∀ s ∈ t :: seen, ∃ j, 0 < j ∧ climb (textParent dag) j s = some p := by
        refine List.forall_mem_cons.mpr ⟨⟨1, Nat.one_pos, by rw [climb_succ_of_some hp]; rfl⟩,
          fun s hs => ?_⟩
        obtain ⟨j, hj, hs⟩ := hseen s hs
        exact ⟨j + 1, Nat.succ_pos j, (climb_succ_last hs).trans hp⟩
      obtain ⟨n, hn, hle⟩ : ∃ n, depthFrom dag fuel (t :: seen) (.str p) (d + 1) = .ok n ∧
          n ≤ d + 1 + k :=
        depthFrom_ok htext h (by omega) hlater hseen'
      exact ⟨n, hn, by omega⟩

/-- **When the depth of a task is within the cap**, its parents being texts: it has no parent three
times over. -/
theorem depthOf_le_iff (htext : ∀ u, parentOf dag u = .none ∨ ∃ p, parentOf dag u = .str p)
    (hmem : t ∈ taskIds dag) :
    (∃ n ≤ maxDagDepth, depthOf dag t = .ok n) ↔ climb (textParent dag) maxDagDepth t = none := by
  constructor
  · rintro ⟨n, hn, h⟩
    by_contra hsome
    obtain ⟨u, hu⟩ := Option.ne_none_iff_exists'.mp hsome
    have := depthFrom_climb h hn hu
    omega
  · intro h
    have hlength : 1 ≤ dag.length := by
      obtain ⟨e, he, -⟩ := exists_of_mem_taskIds hmem
      exact List.length_pos_of_mem he
    have hfuel : maxDagDepth + 1 ≤ dag.length + 3 := by
      unfold maxDagDepth
      omega
    obtain ⟨n, hn, hle⟩ := depthFrom_ok htext h hfuel h fun s hs => absurd hs List.not_mem_nil
    exact ⟨n, by omega, hn⟩

end

/-! ## Accepted workflows -/

/-- The dag of a workflow. -/
def dagOf (workflow : PyVal) : PyVal := fieldOr workflow "dag" (.list [])

def entriesOf (workflow : PyVal) : List PyVal := elems (dagOf workflow)

/-- What the validator checks. -/
structure WorkflowPasses (lib : Texts) (workflow : PyVal) : Prop where
  dict : isDict workflow = true
  goal : isFilled (field workflow "goal") = true
  tracker : trackerErrors workflow = []
  list : isList (dagOf workflow) = true
  nodes : (entriesOf workflow).length ≤ maxDagNodes
  nodup : (taskIds (entriesOf workflow)).Nodup
  contracts : ∀ entry ∈ entriesOf workflow, validateContract lib (taskIds (entriesOf workflow))
    entry = .ok []
  depth : ∀ t ∈ taskIds (entriesOf workflow),
    climb (textParent (entriesOf workflow)) maxDagDepth t = none
  levels : ∀ key, ((taskIds (entriesOf workflow)).map (levelOf (entriesOf workflow))).count key ≤
    maxNodesPerLevel

section

variable {lib : Texts} {ids : List Str} {entry workflow : PyVal} {dag : List PyVal} {t p : Str}

/-- The parent of an accepted contract. -/
theorem parent_of_accepted (h : validateContract lib ids entry = .ok [])
    (hcontract : isContract entry = true) :
    field entry "parent" = .none ∨ ∃ p ∈ ids, field entry "parent" = .str p := by
  unfold isContract at hcontract
  have hdict := (validateContract_eq_nil h hcontract).dict
  have hfilled := (validateContract_eq_nil h hcontract).taskId
  unfold validateContract at h
  rw [if_neg (by simp [hdict]), hcontract, if_neg (by decide)] at h
  obtain ⟨unknown, -, h⟩ := bind_eq_ok.mp h
  rw [if_neg (by simp [hfilled])] at h
  have hnil := Except.ok.inj h
  simp only [List.append_eq_nil_iff, tailErrors, complain_eq_nil] at hnil
  have hparent := hnil.1.2.2
  cases hvalue : field entry "parent" with
  | none => exact .inl rfl
  | str p =>
    rw [hvalue] at hparent
    exact .inr ⟨p, by simpa [isNull, isStr, textOf] using hparent, rfl⟩
  | _ =>
    rw [hvalue] at hparent
    simp [isNull, isStr] at hparent

theorem parentOf_cases (t : Str) : parentOf dag t = .none ∨
    ∃ e ∈ dag, isText (field e "task_id") t = true ∧ parentOf dag t = field e "parent" := by
  unfold parentOf
  cases hfind : dag.reverse.find? fun e => isText (field e "task_id") t with
  | none => exact .inl rfl
  | some e =>
    exact .inr ⟨e,
      List.mem_reverse.mp (List.mem_of_find?_eq_some hfind), by
        simpa using List.find?_some hfind, rfl⟩

theorem isContract_of_isText (h : isText (field entry "task_id") t = true) :
    isContract entry = true := by
  unfold isContract hasKey
  cases entry with
  | dict items =>
    cases hitem : getItem items (lit "task_id") with
    | none => simp [field, fieldOr, hitem, isText] at h
    | some v =>
      show (getItem items (lit "task_id")).isSome = true
      rw [hitem]
      rfl
  | _ => cases h

/-- In an accepted dag a parent is a text. -/
theorem parentOf_text (h : ∀ entry ∈ dag, validateContract lib (taskIds dag) entry = .ok [])
    (u : Str) : parentOf dag u = .none ∨ ∃ p, parentOf dag u = .str p := by
  have hcases : parentOf dag u = .none ∨ ∃ e ∈ dag, isText (field e "task_id") u = true ∧
      parentOf dag u = field e "parent" :=
    parentOf_cases u
  rcases hcases with hnone | ⟨e, he, hid, hparent⟩
  · exact .inl hnone
  · rw [hparent]
    exact (parent_of_accepted (h e he) (isContract_of_isText hid)).imp_right
      fun ⟨p, _, hp⟩ => ⟨p, hp⟩

/-! ### What raises -/

theorem sortKeys_total {keys : List PyKey} (h : ∀ k ∈ keys, k.isStr = true) :
    ∃ sorted, sortKeys keys = .ok sorted := by
  have hcomparable : comparable keys = true := by
    have hall : keys.all PyKey.isStr = true := List.all_eq_true.mpr h
    simp [comparable, hall]
  exact ⟨_, by rw [sortKeys, if_pos hcomparable]⟩

theorem unknownKeys_isStr (h : Parsed entry) (fields : List String) :
    ∀ k ∈ unknownKeys entry fields, k.isStr = true := by
  intro k hk
  have hmem := (List.mem_filter.mp hk).1
  cases h with
  | dict hitems =>
    obtain ⟨p, hp, rfl⟩ := List.mem_map.mp hmem
    exact hitems.str p hp
  | _ => cases hmem

/-- The checks of an entry raise on no JSON value. -/
theorem validateContract_total (h : Parsed entry) :
    ∃ errors, validateContract lib ids entry = .ok errors := by
  unfold validateContract
  by_cases hdict : isDict entry = false
  · exact ⟨_, if_pos hdict⟩
  rw [if_neg hdict]
  by_cases hlegacy : hasKey entry "task_id" = false
  · obtain ⟨unknown, hunknown⟩ := sortKeys_total (unknownKeys_isStr h legacyFields)
    rw [if_pos hlegacy, legacyErrors, hunknown]
    exact ⟨_, rfl⟩
  · obtain ⟨unknown, hunknown⟩ := sortKeys_total (unknownKeys_isStr h contractFields)
    rw [if_neg hlegacy, hunknown]
    by_cases hfilled : isFilled (field entry "task_id") = false
    · exact ⟨_, if_pos hfilled⟩
    · exact ⟨_, if_neg hfilled⟩

theorem depthErrors_isOk (lib : Texts) :
    (∃ errors, depthErrors lib dag = .ok errors) ↔ ∀ t ∈ taskIds dag, ¬MeetsUnhashable dag t := by
  have hdepth : ∀ t, (∃ n, depthOf dag t = .ok n) ↔ ¬MeetsUnhashable dag t := by
    intro t
    rw [← depthOf_error_iff]
    cases depthOf dag t <;> simp
  have hwalks :
    (∃ depths, ((taskIds dag).mapM fun t => (depthOf dag t).map fun depth => (t, depth)) =
      .ok depths) ↔ ∀ t ∈ taskIds dag, ¬MeetsUnhashable dag t := by
    rw [mapM_isOk]
    refine forall₂_congr fun t _ => ?_
    rw [← hdepth]
    cases depthOf dag t <;> simp [Except.map]
  rw [← hwalks]
  constructor
  · rintro ⟨errors, h⟩
    obtain ⟨depths, hdepths, -⟩ := bind_eq_ok.mp h
    exact ⟨depths, hdepths⟩
  · rintro ⟨depths, hdepths⟩
    exact ⟨_, bind_eq_ok.mpr ⟨depths, hdepths, rfl⟩⟩

theorem parsed_getItem {items : List (PyKey × PyVal)} {v : PyVal} {key : Str}
    (h : ParsedItems items) (hv : getItem items key = some v) : Parsed v := by
  obtain ⟨p, hp, rfl⟩ := Option.map_eq_some_iff.mp hv
  exact parsedItems_iff.mp h p (List.mem_of_find?_eq_some hp)

theorem parsed_entry (h : Parsed workflow) : ∀ entry ∈ entriesOf workflow, Parsed entry := by
  intro entry hentry
  have hdag : Parsed (dagOf workflow) := by
    cases h with
    | @dict items _ hitems =>
      show Parsed ((getItem items (lit "dag")).getD (.list []))
      cases hitem : getItem items (lit "dag") with
      | none => exact .list .nil
      | some v => exact parsed_getItem hitems hitem
    | _ => exact .list .nil
  unfold entriesOf at hentry
  cases hvalue : dagOf workflow with
  | list xs =>
    rw [hvalue] at hdag hentry
    cases hdag with
    | list hxs => exact parsedElems_iff.mp hxs entry hentry
  | _ =>
    rw [hvalue] at hentry
    cases hentry

theorem entriesOf_of_not_dict (h : isDict workflow = false) : entriesOf workflow = [] := by
  cases workflow <;> first | rfl | cases h

theorem entriesOf_of_not_list (h : isList (dagOf workflow) = false) : entriesOf workflow = [] := by
  unfold entriesOf
  cases hdag : dagOf workflow <;> first | rfl | (rw [hdag] at h; cases h)

/-- What is put together for a dag that is a list. -/
theorem validateWorkflow_list (hdict : isDict workflow = true)
    (hlist : isList (dagOf workflow) = true) {errors : List Str} :
    validateWorkflow lib workflow = .ok errors ↔ ∃ contractErrors depth,
      (entriesOf workflow).mapM (validateContract lib (taskIds (entriesOf workflow))) =
      .ok contractErrors ∧
      depthErrors lib (entriesOf workflow) = .ok depth ∧
      complain (isFilled (field workflow "goal") = false)
        (lit "workflow.goal must be a non-empty string") ++
        (complain (maxDagNodes < (entriesOf workflow).length)
          (lit "dag exceeds max_dag_nodes=50") ++
          duplicateErrors lib [] (taskIds (entriesOf workflow)) ++
          contractErrors.flatten ++ depth ++
          levelErrors lib (entriesOf workflow)) ++ trackerErrors workflow = errors := by
  unfold validateWorkflow
  rw [if_neg (by simp [hdict]), bind_eq_ok]
  show (∃ dagErrors, validateDag lib (dagOf workflow) = .ok dagErrors ∧ _) ↔ _
  unfold validateDag
  rw [if_neg (by simp [hlist])]
  constructor
  · rintro ⟨dagErrors, hdag, h⟩
    obtain ⟨contractErrors, hcontracts, hdag⟩ := bind_eq_ok.mp hdag
    obtain ⟨depth, hdepth, hdag⟩ := bind_eq_ok.mp hdag
    obtain rfl := Except.ok.inj hdag
    exact ⟨contractErrors, depth, hcontracts, hdepth, Except.ok.inj h⟩
  · rintro ⟨contractErrors, depth, hcontracts, hdepth, rfl⟩
    exact ⟨_, bind_eq_ok.mpr ⟨contractErrors, hcontracts, bind_eq_ok.mpr ⟨depth, hdepth, rfl⟩⟩, rfl⟩

/-- **When the validator answers**: no chain of parents comes to one that is no key. -/
theorem validateWorkflow_ok_iff (h : Parsed workflow) :
    (∃ errors, validateWorkflow lib workflow = .ok errors) ↔
    ∀ t ∈ taskIds (entriesOf workflow), ¬MeetsUnhashable (entriesOf workflow) t := by
  by_cases hdict : isDict workflow = false
  · rw [entriesOf_of_not_dict hdict]
    exact iff_of_true ⟨_, if_pos hdict⟩ fun t ht => absurd ht List.not_mem_nil
  have hdict : isDict workflow = true := by simpa using hdict
  by_cases hlist : isList (dagOf workflow) = false
  · rw [entriesOf_of_not_list hlist]
    refine iff_of_true ?_ fun t ht => absurd ht List.not_mem_nil
    have hdag : validateDag lib (dagOf workflow) = .ok [lit "workflow.dag must be a list"] :=
      if_pos hlist
    unfold validateWorkflow
    rw [if_neg (by simp [hdict])]
    exact ⟨_, bind_eq_ok.mpr ⟨_, hdag, rfl⟩⟩
  have hlist : isList (dagOf workflow) = true := by simpa using hlist
  have hcontracts : ∃ errors,
      (entriesOf workflow).mapM (validateContract lib (taskIds (entriesOf workflow))) =
      .ok errors :=
    mapM_isOk.mpr fun entry hentry => validateContract_total (parsed_entry h entry hentry)
  obtain ⟨contractErrors, hcontracts⟩ := hcontracts
  rw [← depthErrors_isOk lib]
  constructor
  · rintro ⟨errors, herrors⟩
    obtain ⟨_, depth, -, hdepth, -⟩ := (validateWorkflow_list hdict hlist).mp herrors
    exact ⟨depth, hdepth⟩
  · rintro ⟨depth, hdepth⟩
    exact ⟨_, (validateWorkflow_list hdict hlist).mpr ⟨contractErrors, depth, hcontracts,
      hdepth, rfl⟩⟩

theorem levelErrors_eq_nil : levelErrors lib dag = [] ↔
    ∀ key, ((taskIds dag).map (levelOf dag)).count key ≤ maxNodesPerLevel := by
  unfold levelErrors
  simp only [List.flatMap_eq_nil_iff, List.mem_reverse, List.mem_dedup, complain_eq_nil, not_lt]
  refine ⟨fun h key => ?_, fun h key _ => h key⟩
  by_cases hmem : key ∈ (taskIds dag).map (levelOf dag)
  · exact h key hmem
  · rw [List.count_eq_zero_of_not_mem hmem]
    exact Nat.zero_le _

theorem duplicateErrors_of_nodup : ∀ {seen ts : List Str}, ts.Nodup → (∀ t ∈ ts, t ∉ seen) →
    duplicateErrors lib seen ts = []
  | _, [], _, _ => rfl
  | seen, t :: ts, hnodup, hfresh => by
    obtain ⟨hnot, hnodup⟩ := List.nodup_cons.mp hnodup
    refine List.append_eq_nil_iff.mpr ⟨complain_eq_nil.mpr (hfresh t List.mem_cons_self), ?_⟩
    refine duplicateErrors_of_nodup hnodup fun u hu => ?_
    rintro (_ | ⟨_, hseen⟩)
    · exact hnot hu
    · exact hfresh u (List.mem_cons_of_mem _ hu) hseen

theorem depthErrors_eq_nil
    (hcontracts : ∀ entry ∈ dag, validateContract lib (taskIds dag) entry = .ok []) :
    depthErrors lib dag = .ok [] ↔ ∀ t ∈ taskIds dag, climb (textParent dag) maxDagDepth t =
    none := by
  have hdepth : ∀ t ∈ taskIds dag, (∃ n ≤ maxDagDepth, depthOf dag t = .ok n) ↔
      climb (textParent dag) maxDagDepth t = none :=
    fun t ht => depthOf_le_iff (parentOf_text hcontracts) ht
  constructor
  · intro h t ht
    obtain ⟨depths, hdepths, hnil⟩ := bind_eq_ok.mp h
    obtain ⟨pair, hpair, hwalk⟩ := exists_of_mapM_eq_ok hdepths ht
    obtain ⟨n, hn, rfl⟩ := map_eq_ok.mp hwalk
    have hle := List.flatMap_eq_nil_iff.mp (Except.ok.inj hnil) _ hpair
    exact (hdepth t ht).mp ⟨n, not_lt.mp (complain_eq_nil.mp hle), hn⟩
  · intro h
    have hwalks : ∃ depths,
        ((taskIds dag).mapM fun t => (depthOf dag t).map fun depth => (t, depth)) = .ok depths := by
      refine mapM_isOk.mpr fun t ht => ?_
      obtain ⟨n, -, hn⟩ := (hdepth t ht).mpr (h t ht)
      exact ⟨(t, n), map_eq_ok.mpr ⟨n, hn, rfl⟩⟩
    obtain ⟨depths, hdepths⟩ := hwalks
    refine bind_eq_ok.mpr
      ⟨depths, hdepths, congrArg Except.ok (List.flatMap_eq_nil_iff.mpr fun pair hpair => ?_)⟩
    obtain ⟨t, ht, hwalk⟩ := exists_of_mem_mapM hdepths hpair
    obtain ⟨n, hn, rfl⟩ := map_eq_ok.mp hwalk
    obtain ⟨m, hm, hle⟩ := (hdepth t ht).mpr (h t ht)
    obtain rfl := Except.ok.inj (hn.symm.trans hle)
    exact complain_eq_nil.mpr (not_lt.mpr hm)

/-- **Which workflows are accepted.** -/
theorem validateWorkflow_eq_nil_iff :
    validateWorkflow lib workflow = .ok [] ↔ WorkflowPasses lib workflow := by
  constructor
  · intro h
    have hdict : isDict workflow = true := by
      by_contra hnot
      rw [validateWorkflow, if_pos (by simpa using hnot)] at h
      cases h
    have hlist : isList (dagOf workflow) = true := by
      by_contra hnot
      have hdag : validateDag lib (dagOf workflow) = .ok [lit "workflow.dag must be a list"] :=
        if_pos (by simpa using hnot)
      rw [validateWorkflow, if_neg (by simp [hdict])] at h
      obtain ⟨_, hdag', h⟩ := bind_eq_ok.mp h
      obtain rfl := Except.ok.inj (hdag.symm.trans hdag')
      simp at h
    obtain ⟨contractErrors, depth, hcontracts, hdepth, hnil⟩ :=
      (validateWorkflow_list hdict hlist).mp h
    simp only [List.append_eq_nil_iff, complain_eq_nil, not_lt] at hnil
    obtain ⟨⟨hgoal, ⟨⟨⟨hnodes, hduplicates⟩, hflat⟩, rfl⟩, hlevels⟩, htracker⟩ := hnil
    have hall : ∀ entry ∈ entriesOf workflow, validateContract lib (taskIds (entriesOf workflow))
        entry = .ok [] := by
      intro entry hentry
      obtain ⟨errors, herrors, hvalidate⟩ := exists_of_mapM_eq_ok hcontracts hentry
      rw [hvalidate, List.flatten_eq_nil_iff.mp hflat errors herrors]
    exact ⟨hdict, by simpa using hgoal, htracker, hlist, hnodes,
      (duplicateErrors_eq_nil hduplicates).1, hall,
      (depthErrors_eq_nil hall).mp hdepth, levelErrors_eq_nil.mp hlevels⟩
  · rintro ⟨hdict, hgoal, htracker, hlist, hnodes, hnodup, hall, hdepth, hlevels⟩
    have hcontracts : ∃ errors,
        (entriesOf workflow).mapM (validateContract lib (taskIds (entriesOf workflow))) =
        .ok errors :=
      mapM_isOk.mpr fun entry hentry => ⟨[], hall entry hentry⟩
    obtain ⟨contractErrors, hcontracts⟩ := hcontracts
    have hflat : contractErrors.flatten = [] := by
      refine List.flatten_eq_nil_iff.mpr fun errors herrors => ?_
      obtain ⟨entry, hentry, hvalidate⟩ := exists_of_mem_mapM hcontracts herrors
      exact (Except.ok.inj ((hall entry hentry).symm.trans hvalidate)).symm
    refine (validateWorkflow_list hdict hlist).mpr
      ⟨contractErrors, [], hcontracts, (depthErrors_eq_nil hall).mpr hdepth, ?_⟩
    simp only [List.append_eq_nil_iff, complain_eq_nil, not_lt]
    exact ⟨⟨by simp [hgoal],
      ⟨⟨⟨hnodes, duplicateErrors_of_nodup hnodup fun t _ => List.not_mem_nil⟩, hflat⟩, trivial⟩,
      levelErrors_eq_nil.mpr hlevels⟩, htracker⟩

end

/-! ## The rules -/

/-- The parent that a contract names. -/
def ParentOf (dag : List PyVal) (taskId parent : Str) : Prop :=
  ∃ e ∈ dag, isText (field e "task_id") taskId = true ∧ isText (field e "parent") parent = true

/-- Every input names a task that comes before. -/
def InputsEarlier (dag : List PyVal) : Prop :=
  ∀ before e after, dag = before ++ e :: after → isContract e = true →
    ∀ input ∈ texts (fieldOr e "inputs" (.list [])), beforeColon input ∈ taskIds before

/-- **The rules of a dag**: the caps, ids of their own, parents without a circle, and references to
tasks of the dag, those of the inputs to tasks that come before. -/
structure WellFormedDag (dag : List PyVal) : Prop where
  nodes : dag.length ≤ maxDagNodes
  fanOut : ∀ parent, (dag.filter fun e => isContract e && isText (field e "parent") parent).length ≤
    maxNodesPerLevel
  depth : ∀ chain : List Str, chain.IsChain (ParentOf dag) → chain.length ≤ maxDagDepth
  nodup : (taskIds dag).Nodup
  acyclic : ∀ taskId, ¬Relation.TransGen (ParentOf dag) taskId taskId
  inputs : InputsEarlier dag
  parents : ∀ e ∈ dag, isContract e = true → field e "parent" = .none ∨ ∃ p ∈ taskIds dag,
    field e "parent" = .str p
  preconditions : ∀ e ∈ dag, isContract e = true →
    ∀ p ∈ texts (fieldOr e "preconditions" (.list [])), (splitLastColon p).1 ∈ taskIds dag

/-- The validator answers, and what it accepts keeps the rules. -/
def ValidatorLaw (lib : Texts) (workflow : PyVal) : Prop :=
  ∃ errors, validateWorkflow lib workflow = .ok errors ∧
    (errors = [] → WellFormedDag (entriesOf workflow))

section

variable {lib : Texts} {workflow : PyVal} {dag : List PyVal} {t p : Str} {e : PyVal}

/-- In an accepted dag the entry of an id is the one that `parent_map` has. -/
theorem parentOf_entry (hnodup : (taskIds dag).Nodup)
    (hcontracts : ∀ entry ∈ dag, validateContract lib (taskIds dag) entry = .ok []) (he : e ∈ dag)
    (hid : isText (field e "task_id") t = true) :
    parentOf dag t = field e "parent" ∧ t ∈ taskIds dag := by
  have hfilled : ∀ e' ∈ dag, isText (field e' "task_id") t = true →
      e' ∈ dag.filter fun e => isFilled (field e "task_id") := by
    intro e' he' hid'
    exact List.mem_filter.mpr
      ⟨he', (validateContract_eq_nil (hcontracts e' he') (isContract_of_isText hid')).taskId⟩
  have hmem : t ∈ taskIds dag := List.mem_map.mpr ⟨e, hfilled e he hid, idOf_eq hid⟩
  refine ⟨?_, hmem⟩
  unfold parentOf
  cases hfind : dag.reverse.find? fun e => isText (field e "task_id") t with
  | none => exact absurd hid (List.find?_eq_none.mp hfind e (List.mem_reverse.mpr he))
  | some e' =>
    have he' := List.mem_reverse.mp (List.mem_of_find?_eq_some hfind)
    have hid' : isText (field e' "task_id") t = true := by simpa using List.find?_some hfind
    have hsame : e' = e := List.inj_on_of_nodup_map hnodup (hfilled e' he' hid') (hfilled e he hid)
      ((idOf_eq hid').trans (idOf_eq hid).symm)
    show field e' "parent" = field e "parent"
    rw [hsame]

theorem isText_idOf (h : isFilled (field e "task_id") = true) :
    isText (field e "task_id") (idOf e) = true := by
  have hstr := (Bool.and_eq_true_iff.mp h).1
  unfold idOf
  cases hvalue : field e "task_id" with
  | str s => exact isText_iff.mpr rfl
  | _ =>
    rw [hvalue] at hstr
    cases hstr

theorem ne_nil_of_mem_taskIds (h : t ∈ taskIds dag) : t ≠ [] := by
  rintro rfl
  obtain ⟨e, he, hid⟩ := List.mem_map.mp h
  have hfilled := (List.mem_filter.mp he).2
  simp [isFilled, hid, strip] at hfilled

theorem WorkflowPasses.textParent (h : WorkflowPasses lib workflow)
    (hparent : ParentOf (entriesOf workflow) t p) :
    Conversation.textParent (entriesOf workflow) t = some p ∧ t ∈ taskIds (entriesOf workflow) := by
  obtain ⟨e, he, hid, hp⟩ := hparent
  obtain ⟨hentry, hmem⟩ := parentOf_entry h.nodup h.contracts he hid
  exact ⟨textParent_eq_some.mpr (hentry.trans (isText_iff.mp hp)), hmem⟩

theorem WorkflowPasses.climb_chain (h : WorkflowPasses lib workflow) :
    ∀ {chain : List Str} {t : Str},
    (t :: chain).IsChain (ParentOf (entriesOf workflow)) →
    climb (Conversation.textParent (entriesOf workflow)) chain.length t ≠ none
  | [], _, _ => by simp [climb]
  | p :: chain, t, hchain => by
    obtain ⟨hparent, hrest⟩ := List.isChain_cons_cons.mp hchain
    rw [List.length_cons, climb_succ_of_some (h.textParent hparent).1]
    exact h.climb_chain hrest

theorem WorkflowPasses.depth_chain (h : WorkflowPasses lib workflow) (chain : List Str)
    (hchain : chain.IsChain (ParentOf (entriesOf workflow))) : chain.length ≤ maxDagDepth := by
  match chain, hchain with
  | [], _ => exact Nat.zero_le _
  | [_], _ => exact Nat.le_add_left 1 2
  | t :: p :: chain, hchain =>
    have hmem := (h.textParent (List.isChain_cons_cons.mp hchain).1).2
    by_contra hlong
    refine h.climb_chain hchain (climb_eq_none_of_le (h.depth t hmem) ?_)
    rw [List.length_cons] at hlong
    omega

theorem WorkflowPasses.acyclic (h : WorkflowPasses lib workflow) (taskId : Str) :
    ¬Relation.TransGen (ParentOf (entriesOf workflow)) taskId taskId := by
  have hclimb : ∀ {a b}, Relation.TransGen (ParentOf (entriesOf workflow)) a b →
      a ∈ taskIds (entriesOf workflow) ∧ ∃ k, climb (Conversation.textParent (entriesOf workflow))
      (k + 1) a = some b := by
    intro a b hab
    induction hab with
    | single hparent =>
      obtain ⟨hp, hmem⟩ := h.textParent hparent
      exact ⟨hmem, 0, by rw [climb_succ_of_some hp]; rfl⟩
    | tail _ hparent ih =>
      obtain ⟨hmem, k, hk⟩ := ih
      exact ⟨hmem, k + 1, (climb_succ_last hk).trans (h.textParent hparent).1⟩
  intro hcycle
  obtain ⟨hmem, k, hk⟩ := hclimb hcycle
  exact climb_ne_none_of_cycle (Nat.succ_pos k) hk maxDagDepth (h.depth taskId hmem)

theorem WorkflowPasses.fanOut (h : WorkflowPasses lib workflow) (parent : Str) :
    ((entriesOf workflow).filter fun e => isContract e && isText (field e "parent") parent).length ≤
    maxNodesPerLevel := by
  refine le_trans ?_ (h.levels (.str parent))
  have hcount : ((taskIds (entriesOf workflow)).map (levelOf (entriesOf workflow))).count
    (.str parent) =
      (entriesOf workflow).countP fun e => (levelOf (entriesOf workflow) (idOf e) == .str parent) &&
      isFilled (field e "task_id") := by
    rw [List.count, taskIds, List.map_map, List.countP_map, List.countP_filter]
    rfl
  rw [hcount, ← List.countP_eq_length_filter]
  refine List.countP_mono_left fun e he hparent => ?_
  obtain ⟨hcontract, hparent⟩ := Bool.and_eq_true_iff.mp hparent
  have hfilled := (validateContract_eq_nil (h.contracts e he) hcontract).taskId
  have hvalue := (parentOf_entry h.nodup h.contracts he (isText_idOf hfilled)).1.trans
    (isText_iff.mp hparent)
  have hne : parent ≠ [] := by
    rcases parent_of_accepted (h.contracts e he) hcontract with hnone | ⟨p, hp, hp'⟩
    · rw [isText_iff.mp hparent] at hnone
      cases hnone
    · rw [isText_iff.mp hparent] at hp'
      obtain rfl := PyVal.str.inj hp'
      exact ne_nil_of_mem_taskIds hp
  have hlevel : levelOf (entriesOf workflow) (idOf e) = .str parent := by
    rw [levelOf, hvalue, orElse, if_pos (by simpa [truthy] using hne)]
  simp [hlevel, hfilled]

theorem WorkflowPasses.wellFormed (h : WorkflowPasses lib workflow)
    (hinputs : InputsEarlier (entriesOf workflow)) :
    WellFormedDag (entriesOf workflow) where
  nodes := h.nodes
  fanOut := h.fanOut
  depth := h.depth_chain
  nodup := h.nodup
  acyclic := h.acyclic
  inputs := hinputs
  parents e he hcontract := parent_of_accepted (h.contracts e he) hcontract
  preconditions e he hcontract p hp :=
    ((validateContract_eq_nil (h.contracts e he) hcontract).precondition.2 p hp).2.1

/-- **When the validator does what its rules say**, for any JSON value: no chain of parents comes to
a list or an object, and where every check passes, no input names a task that does not come before.
-/
theorem workflow_law (lib : Texts) (j : Json) : ValidatorLaw lib (ofJson j) ↔
    (∀ t ∈ taskIds (entriesOf (ofJson j)), ¬MeetsUnhashable (entriesOf (ofJson j)) t) ∧
      (WorkflowPasses lib (ofJson j) → InputsEarlier (entriesOf (ofJson j))) := by
  rw [← validateWorkflow_ok_iff (parsed_ofJson j)]
  constructor
  · rintro ⟨errors, herrors, hlaw⟩
    refine ⟨⟨errors, herrors⟩, fun hpasses => ?_⟩
    have hnil := validateWorkflow_eq_nil_iff.mpr hpasses
    exact (hlaw (Except.ok.inj (herrors.symm.trans hnil))).inputs
  · rintro ⟨⟨errors, herrors⟩, hearlier⟩
    refine ⟨errors, herrors, fun hnil => ?_⟩
    subst hnil
    have hpasses := validateWorkflow_eq_nil_iff.mp herrors
    exact hpasses.wellFormed (hearlier hpasses)

/-- A parent that is a list is complained about, and then it is asked for in a set. -/
theorem list_parent_raises : ¬∀ (lib : Texts) (j : Json), ValidatorLaw lib (ofJson j) := by
  intro h
  let entry : Json :=
    .obj [(lit "task_id", .str (lit "t")), (lit "objective", .str (lit "o")),
      (lit "skill", .str (lit "s")),
    (lit "parent", .arr [])]
  let workflow : Json := .obj [(lit "goal", .str (lit "g")), (lit "dag", .arr [entry])]
  obtain ⟨errors, herrors, -⟩ := h ⟨textOf, fun _ => [], fun _ => rfl⟩ workflow
  have hmeets : MeetsUnhashable (entriesOf (ofJson workflow)) (lit "t") :=
    ⟨0, lit "t", rfl, by decide⟩
  exact (validateWorkflow_ok_iff (parsed_ofJson workflow)).mp ⟨errors, herrors⟩ (lit "t")
    (by decide) hmeets

end

end Conversation
