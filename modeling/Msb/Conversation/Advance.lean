import Msb.Conversation.RolledBack
import Msb.Tasks.Lifecycle

/-!
# One step through a dag

`select_ready_task` and `advance_dag`: the first task that is `READY`, and whose preconditions are
`VERIFIED`, is executed under its contract, and its status is written into a copy of the dag.

A task without a status passes for `READY` in the validation, and for nothing here.

* `validateDag_congr` — a dag stays valid where statuses are written
-/

namespace Conversation

open Py Ledger

/-! ## The selection -/

/-- `p.rsplit(":", 1)[0]` -/
def beforeLastColon (p : Str) : Str := if colon ∈ p then (splitLastColon p).1 else p

/-- `v in set`: a list or a dict has no hash. -/
def hashable : PyVal → Bool
  | .list _ | .dict _ => false
  | _ => true

/-- `e.get("status") == status`, for a dict. -/
def hasStatus (e : PyVal) (status : ExecStatus) : Bool := isText (field e "status") status.text

def isReady (e : PyVal) : Bool := isText (field e "status") (lit "READY")

/-- `all(p.rsplit(":", 1)[0] in verified for p in preconditions)` -/
def allVerified (verified : List PyVal) : List PyVal → Except PyError Bool
  | [] => .ok true
  | .str p :: ps =>
    if verified.any fun t => isText t (beforeLastColon p) then allVerified verified ps
      else .ok false
  | _ => .error .attributeError

/-- The loop of `select_ready_task`. -/
def firstReady (verified : List PyVal) : List PyVal → Except PyError (Option PyVal)
  | [] => .ok none
  | e :: es =>
    if isReady e = false then firstReady verified es
    else do
      let preconditions ← Vesta.iterate (orElse (field e "preconditions") (.list []))
      let ready ← allVerified verified preconditions
      if ready then .ok (some e) else firstReady verified es

/-- The ids of the tasks that are `VERIFIED`. -/
def verifiedIds (dag : List PyVal) : List PyVal :=
  (dag.filter (hasStatus · .verified)).map (field · "task_id")

/-- `select_ready_task` -/
def selectReadyTask (dag : List PyVal) : Except PyError (Option PyVal) := do
  raiseIf ((verifiedIds dag).all hashable = false) .typeError
  firstReady (verifiedIds dag) dag

/-! ## The step -/

/-- `e["status"] = status`, in a copy of the entry. -/
def setStatus (status : ExecStatus) : PyVal → PyVal
  | .dict items => .dict (Tasks.setItem (.str (lit "status")) (.str status.text) items)
  | v => v

/-- The copy of the dag with the new status. The entries of a dag that has been validated are dicts.
-/
def updateDag (taskId : Str) (status : ExecStatus) (dag : List PyVal) : List PyVal :=
  dag.map fun e => if isText (field e "task_id") taskId then setStatus status e else e

section

variable (P : Platform) {σ : Type} (sys : System σ) (lib : ExecLib)

/-- `advance_dag`. The dag of the request is the one that is advanced, and no HEAD is given. -/
def advanceDag (req : Request) (dag : List PyVal) (w : World σ) :
    Except PyError (List PyVal × Option ExecutionResult) × World σ :=
  match selectReadyTask dag with
  | .error e => (.error e, w)
  | .ok none => (.ok (dag, none), w)
  | .ok (some entry) =>
    match validateContract lib.toTexts (dagIds dag) entry with
    | .error e => (.error e, w)
    | .ok (error :: errors) =>
      (.error (.valueError (lit "invalid contract: " ++ join "; " (error :: errors))), w)
    | .ok [] =>
      match executeContract P sys lib { req with dag := some dag, preTaskHead := none } entry w with
      | (.error e, w) => (.error e, w)
      | (.ok result, w) =>
        if dag.all isDict
          then (.ok (updateDag (idOf entry) result.outcome.status dag, some result), w)
        else (.error .typeError, w)

end

/-! ## A status that is written -/

theorem getItem_setItem (key key' : String) (v : PyVal) : ∀ items : List (PyKey × PyVal),
    getItem (Tasks.setItem (.str (lit key)) v items) (lit key') =
      if key' = key then some v else getItem items (lit key')
  | [] => by
    by_cases hkey : key' = key
    · subst hkey
      rw [if_pos rfl]
      simp [Tasks.setItem, getItem]
    · have hne : lit key ≠ lit key' := fun h => hkey (lit_injective h).symm
      rw [if_neg hkey]
      simp [Tasks.setItem, getItem, hne]
  | (k, v') :: items => by
    have ih := getItem_setItem key key' v items
    unfold Tasks.setItem
    by_cases hk : k = .str (lit key)
    · rw [if_pos hk, hk]
      by_cases hkey : key' = key
      · subst hkey
        rw [if_pos rfl]
        simp [getItem]
      · have hne : lit key ≠ lit key' := fun h => hkey (lit_injective h).symm
        rw [if_neg hkey]
        simp [getItem, hne]
    · rw [if_neg hk]
      by_cases hk' : k = .str (lit key')
      · have hkey : key' ≠ key := fun h => hk (by rw [hk', h])
        rw [if_neg hkey]
        simp [getItem, hk']
      · show getItem ((k, v') :: _) _ = _
        unfold getItem at ih ⊢
        rw [List.find?_cons_of_neg (by simpa using hk'),
          List.find?_cons_of_neg (by simpa using hk')]
        exact ih

/-- An item that is there is replaced in its place. -/
theorem keys_setItem (k : PyKey) (v : PyVal) : ∀ {items : List (PyKey × PyVal)},
    k ∈ items.map Prod.fst → (Tasks.setItem k v items).map Prod.fst = items.map Prod.fst
  | [], h => by cases h
  | (k', v') :: items, h => by
    unfold Tasks.setItem
    by_cases hk : k' = k
    · rw [if_pos hk]
      rfl
    · rw [if_neg hk, List.map_cons, List.map_cons, keys_setItem k v]
      exact (List.mem_cons.mp h).resolve_left fun h => hk h.symm

/-- Two entries that differ in their status at most. -/
structure SameBut (e e' : PyVal) : Prop where
  dict : isDict e' = isDict e
  keys : keysOf e' = keysOf e
  fieldOr : ∀ key default, key ≠ "status" →
    fieldOr e' key default = Conversation.fieldOr e key default
  hasKey : ∀ key, key ≠ "status" → hasKey e' key = Conversation.hasKey e key

theorem SameBut.refl (e : PyVal) : SameBut e e := ⟨rfl, rfl, fun _ _ _ => rfl, fun _ _ => rfl⟩

theorem SameBut.trans {e e' e'' : PyVal} (h : SameBut e e') (h' : SameBut e' e'') : SameBut e e'' :=
  ⟨h'.dict.trans h.dict, h'.keys.trans h.keys, fun key d hkey => (h'.fieldOr key d hkey).trans
    (h.fieldOr key d hkey), fun key hkey => (h'.hasKey key hkey).trans (h.hasKey key hkey)⟩

theorem mem_keysOf {items : List (PyKey × PyVal)} {key : String}
    (h : hasKey (.dict items) key = true) : PyKey.str (lit key) ∈ items.map Prod.fst := by
  have hsome : (getItem items (lit key)).isSome = true := h
  unfold getItem at hsome
  rw [Option.isSome_map, List.find?_isSome] at hsome
  obtain ⟨p, hp, hkey⟩ := hsome
  exact List.mem_map.mpr ⟨p, hp, by simpa using hkey⟩

section

variable {P : Platform} {σ : Type} {sys : System σ} {lib : ExecLib} {texts : Texts} {ids : List Str}
  {e e' : PyVal} {status : ExecStatus} {taskId : Str} {dag dag' : List PyVal}

/-- **A status that is written** changes nothing else, where there was one. -/
theorem sameBut_setStatus (h : hasKey e "status" = true) : SameBut e (setStatus status e) := by
  cases e with
  | dict items =>
    refine ⟨rfl, keys_setItem _ _ (mem_keysOf h), fun key default hkey => ?_, fun key hkey => ?_⟩
    · show (getItem (Tasks.setItem _ _ _) _).getD default = _
      rw [getItem_setItem, if_neg hkey]
      rfl
    · show (getItem (Tasks.setItem _ _ _) _).isSome = _
      rw [getItem_setItem, if_neg hkey]
      rfl
  | _ => cases h

theorem status_setStatus (h : isDict e = true) (default : PyVal) :
    fieldOr (setStatus status e) "status" default = .str status.text := by
  cases e with
  | dict items =>
    show (getItem (Tasks.setItem _ _ _) _).getD default = _
    rw [getItem_setItem, if_pos rfl]
    rfl
  | _ => cases h

/-- The checks of a contract but the one of its status. -/
def checksOf (texts : Texts) (taskId : Str) (ids : List Str) (e : PyVal) : List Str :=
  headErrors texts taskId e ++ inputErrors texts taskId ids e ++ envelopeErrors texts taskId e ++
    constraintErrors texts taskId e ++ preconditionErrors texts taskId ids e ++
    outputErrors texts taskId e ++
    verificationErrors texts taskId e ++ effectErrors texts taskId e ++
      rollbackErrors texts taskId e ++
    tailErrors texts taskId ids e

theorem SameBut.checksOf (h : SameBut e e') :
    checksOf texts taskId ids e' = Conversation.checksOf texts taskId ids e := by
  have hfield : ∀ key, key ≠ "status" → field e' key = field e key :=
    fun key hkey => h.fieldOr key _ hkey
  unfold Conversation.checksOf headErrors inputErrors envelopeErrors constraintErrors
    preconditionErrors outputErrors verificationErrors effectErrors rollbackErrors tailErrors
  simp [hfield, h.fieldOr]

theorem sortKeys_eq_nil {keys : List PyKey} : sortKeys keys = .ok [] ↔ keys = [] := by
  constructor
  · intro h
    unfold sortKeys at h
    by_cases hcomparable : comparable keys = true
    · rw [if_pos hcomparable] at h
      have hperm := List.perm_insertionSort (fun a b : PyKey => ¬ b.lt a = true) keys
      rw [Except.ok.inj h] at hperm
      exact hperm.nil_eq.symm
    · rw [if_neg hcomparable] at h
      cases h
  · rintro rfl
    rfl

theorem isDict_of_hasKey {key : String} (h : hasKey e key = true) : isDict e = true := by
  cases e with
  | dict items => rfl
  | _ => cases h

/-- A contract with an id is valid where the checks find nothing. -/
theorem validateContract_iff (hcontract : isContract e = true) :
    validateContract texts ids e = .ok [] ↔
    unknownKeys e contractFields = [] ∧ isFilled (field e "task_id") = true ∧
    checksOf texts (idOf e) ids e = [] ∧
      isOneOf (fieldOr e "status" (.str (lit "READY"))) validStatuses = true := by
  have hdict : isDict e = true := isDict_of_hasKey hcontract
  have hkey : hasKey e "task_id" = true := hcontract
  constructor
  · intro h
    have haccepted := validateContract_eq_nil h hcontract
    unfold validateContract at h
    rw [hdict, hkey, if_neg (by decide), if_neg (by decide)] at h
    obtain ⟨unknown, hunknown, h⟩ := bind_eq_ok.mp h
    rw [haccepted.taskId, if_neg (by decide)] at h
    have hnil := Except.ok.inj h
    simp only [List.append_eq_nil_iff, complain_eq_nil, not_not] at hnil
    obtain ⟨⟨⟨⟨⟨⟨⟨⟨⟨⟨⟨hkeys, hhead⟩, hinputs⟩, henvelope⟩, hconstraints⟩, hpreconditions⟩, houtput⟩,
      hverification⟩, heffects⟩, hrollback⟩, htail⟩, -⟩ := hnil
    refine ⟨sortKeys_eq_nil.mp (hkeys ▸ hunknown), haccepted.taskId, ?_, haccepted.status_mem⟩
    unfold checksOf
    simp only [List.append_eq_nil_iff]
    exact ⟨⟨⟨⟨⟨⟨⟨⟨⟨hhead, hinputs⟩, henvelope⟩, hconstraints⟩, hpreconditions⟩, houtput⟩,
      hverification⟩, heffects⟩, hrollback⟩, htail⟩
  · rintro ⟨hunknown, hid, hchecks, hstatus⟩
    have hstatusErrors : statusErrors texts (idOf e) e = [] := by
      unfold statusErrors
      rw [complain_eq_nil, hstatus]
      decide
    unfold checksOf idOf at hchecks
    unfold idOf at hstatusErrors
    unfold validateContract
    rw [hdict, hkey, if_neg (by decide), if_neg (by decide), hunknown, hid]
    show Except.ok ([] ++ headErrors texts (textOf (field e "task_id")) e ++ _ ++ _ ++ _ ++ _ ++
      _ ++ _ ++ _ ++ _ ++ _ ++ _) = .ok []
    rw [List.nil_append, hchecks, hstatusErrors]
    rfl

/-- **What is checked of an entry**, its status left out. -/
theorem validateContract_congr (h : SameBut e e')
    (hstatus : isOneOf (fieldOr e' "status" (.str (lit "READY"))) validStatuses = true)
    (hvalid : validateContract texts ids e = .ok []) : validateContract texts ids e' = .ok [] := by
  have hfield : ∀ key, key ≠ "status" → field e' key = field e key :=
    fun key hkey => h.fieldOr key _ hkey
  have hcontract' : isContract e' = isContract e := h.hasKey "task_id" (by decide)
  by_cases hcontract : isContract e = true
  · obtain ⟨hkeys, hid, hchecks, -⟩ := (validateContract_iff hcontract).mp hvalid
    have hunknown : unknownKeys e' contractFields = unknownKeys e contractFields := by
      unfold unknownKeys
      rw [h.keys]
    have hidOf : idOf e' = idOf e := by
      unfold idOf
      rw [hfield "task_id" (by decide)]
    refine (validateContract_iff (hcontract'.trans hcontract)).mpr
      ⟨hunknown.trans hkeys, ?_, ?_, hstatus⟩
    · rw [hfield "task_id" (by decide)]
      exact hid
    · rw [hidOf, h.checksOf]
      exact hchecks
  · have hkey : hasKey e "task_id" = false := by simpa [isContract] using hcontract
    have hkey' : hasKey e' "task_id" = false := (h.hasKey "task_id" (by decide)).trans hkey
    have hlegacy : legacyErrors texts e' = legacyErrors texts e := by
      unfold legacyErrors unknownKeys
      rw [h.keys, hfield "skill" (by decide)]
    unfold validateContract at hvalid ⊢
    rw [h.dict, hkey', hlegacy]
    rw [hkey] at hvalid
    exact hvalid

/-! ## A dag with other statuses -/

/-- Two dags that differ in statuses at most. -/
def SameButStatuses (dag dag' : List PyVal) : Prop := List.Forall₂ SameBut dag dag'

theorem SameButStatuses.taskIds (h : SameButStatuses dag dag') :
    taskIds dag' = Conversation.taskIds dag := by
  induction h with
  | nil => rfl
  | cons he htail ih =>
    have hid := he.fieldOr "task_id" .none (by decide)
    unfold Conversation.taskIds field at ih ⊢
    rw [List.filter_cons, List.filter_cons, hid]
    split
    · rw [List.map_cons, List.map_cons, ih, hid]
    · exact ih

theorem SameButStatuses.find? (h : SameButStatuses dag dag') (taskId : Str) :
    (dag'.find? fun e => isText (field e "task_id") taskId).map (field · "parent") =
      (dag.find? fun e => isText (field e "task_id") taskId).map (field · "parent") := by
  induction h with
  | nil => rfl
  | cons he htail ih =>
    have hid := he.fieldOr "task_id" .none (by decide)
    rw [List.find?_cons, List.find?_cons]
    unfold field at ih ⊢
    rw [hid]
    split
    · exact congrArg some (he.fieldOr "parent" .none (by decide))
    · exact ih

theorem SameButStatuses.parentOf (h : SameButStatuses dag dag') :
    parentOf dag' = Conversation.parentOf dag := by
  funext taskId
  have hfind := SameButStatuses.find? (List.forall₂_reverse_iff.mpr h) taskId
  unfold Conversation.parentOf
  cases hleft : dag'.reverse.find? fun e => isText (field e "task_id") taskId <;>
    cases hright : dag.reverse.find? fun e => isText (field e "task_id") taskId <;>
      rw [hleft, hright] at hfind
  · cases hfind
  · cases hfind
  · exact Option.some.inj hfind

theorem SameButStatuses.depthFrom (h : SameButStatuses dag dag') : ∀ (fuel : Nat) (seen : List Str)
    (cur : PyVal) (depth : Nat),
    depthFrom dag' fuel seen cur depth = Conversation.depthFrom dag fuel seen cur depth
  | 0, _, _, _ => rfl
  | fuel + 1, seen, cur, depth => by
    unfold Conversation.depthFrom
    cases cur with
    | str t =>
      dsimp only
      rw [h.parentOf, SameButStatuses.depthFrom h fuel]
    | _ => rfl

theorem exists_of_forall₂_mem {α β : Type} {R : α → β → Prop} {xs : List α} {ys : List β}
    (h : List.Forall₂ R xs ys) {y : β} (hy : y ∈ ys) : ∃ x ∈ xs, R x y := by
  induction h with
  | nil => cases hy
  | cons hR htail ih =>
    rcases List.mem_cons.mp hy with rfl | hy
    · exact ⟨_, List.mem_cons_self, hR⟩
    · obtain ⟨x, hx, hRx⟩ := ih hy
      exact ⟨x, List.mem_cons_of_mem _ hx, hRx⟩

/-- **A dag stays valid** where its statuses are others that there are. -/
theorem validateDag_congr (h : SameButStatuses dag dag')
    (hstatus : ∀ e ∈ dag', isOneOf (fieldOr e "status" (.str (lit "READY"))) validStatuses = true)
    (hvalid : validateDag texts (.list dag) = .ok []) :
    validateDag texts (.list dag') = .ok [] := by
  have hlength : dag'.length = dag.length := h.length_eq.symm
  have haccepted := validateDag_eq_nil hvalid
  have hcontracts : dag'.mapM (validateContract texts (taskIds dag')) =
      .ok (dag'.map fun _ => []) := by
    refine mapM_eq_ok.mpr (List.forall₂_map_right_iff.mpr (List.forall₂_same.mpr fun e' he' => ?_))
    obtain ⟨e, he, hsame⟩ := exists_of_forall₂_mem h he'
    rw [h.taskIds]
    exact validateContract_congr hsame (hstatus e' he') (haccepted.entries e he)
  have hdepth : depthErrors texts dag' = depthErrors texts dag := by
    unfold depthErrors depthOf
    rw [h.taskIds, hlength]
    simp only [h.depthFrom]
  have hlevel : levelErrors texts dag' = levelErrors texts dag := by
    unfold levelErrors levelOf
    rw [h.taskIds]
    simp only [h.parentOf]
  unfold validateDag at hvalid ⊢
  have hlist : ∀ xs : List PyVal, ¬ isList (.list xs) = false := fun _ h => by cases h
  rw [if_neg (hlist _)] at hvalid ⊢
  dsimp only [elems] at hvalid ⊢
  obtain ⟨contractErrors, hmapM, hvalid⟩ := bind_eq_ok.mp hvalid
  obtain ⟨depth, hdepthOk, hvalid⟩ := bind_eq_ok.mp hvalid
  have hnil := Except.ok.inj hvalid
  simp only [List.append_eq_nil_iff] at hnil
  obtain ⟨⟨⟨⟨hsize, hduplicates⟩, -⟩, hdepthNil⟩, hlevelNil⟩ := hnil
  refine bind_eq_ok.mpr ⟨_, hcontracts, bind_eq_ok.mpr ⟨depth, hdepth.trans hdepthOk, ?_⟩⟩
  rw [hlevel, h.taskIds, hlength, hsize, hduplicates, hdepthNil, hlevelNil]
  simp

end

end Conversation
