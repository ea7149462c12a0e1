import Msb.Evidence.Spine
import Msb.Ledger.TamperEvidence

/-!
# What the spine binds

Two spines that verify and end in one hash agree on every field that is hashed. The hash leaves out
three columns that `get` and `trail` report (the id of the decision, the sequence number in the
audit chain and the task), and it sorts the lists, so their order is not bound either.

* `sameHashed_of_lastHash_eq` — two valid spines with one last hash have hashed the same values
* `spine_agrees_iff`, `spine_edit_reported_iff` — what is bound, and which edits are reported
* `not_spine_agrees` — another task, not reported
-/

namespace Evidence

open Py Ledger HashChain

variable {P : Platform} {lib : SpineLib}

/-! ## Values that were read -/

/-- A value that was read, or a tuple of such values. -/
def Readable (v : PyVal) : Prop := Parsed v ∨ ∃ xs, v = .tuple xs ∧ ∀ x ∈ xs, Parsed x

variable {v : PyVal} {e e' : DecisionEvidence lib} {f : EvidenceField} {h p now now' : Str}
  {row r : SpineRow}

theorem parsed_of_iterate {values : List PyVal} (hv : Readable v)
    (h : Vesta.iterate v = .ok values) : ∀ x ∈ values, Parsed x := by
  rcases hv with hv | ⟨xs, rfl, hxs⟩
  · cases hv with
    | list hxs =>
      obtain rfl := Except.ok.inj h
      exact parsedElems_iff.mp hxs
    | str s =>
      obtain rfl := Except.ok.inj h
      intro x hx
      obtain ⟨c, -, rfl⟩ := List.mem_map.mp hx
      exact .str [c]
    | dict hd hitems =>
      obtain rfl := Except.ok.inj h
      intro x hx
      obtain ⟨p, hp, rfl⟩ := List.mem_map.mp hx
      obtain ⟨s, hs⟩ := exists_str (hd.str p hp)
      rw [hs]
      exact .str s
    | _ => cases h
  · obtain rfl := Except.ok.inj h
    exact hxs

theorem parsed_sorted {w : PyVal} (hv : Readable v) (h : sorted lib v = .ok w) : Parsed w := by
  obtain ⟨values, hvalues, h⟩ := bind_eq_ok.mp h
  obtain ⟨ordered, hordered, h⟩ := bind_eq_ok.mp h
  obtain rfl := Except.ok.inj h
  refine .list (parsedElems_iff.mpr fun x hx => ?_)
  exact parsed_of_iterate hv hvalues x ((lib.perm hordered).mem_iff.mp hx)

/-- An evidence whose fields were read. -/
def FieldsRead (e : DecisionEvidence lib) : Prop :=
  ∀ f, Readable (e.get f) ∧ (f.isTuple = false → Parsed (e.get f))

theorem parsed_canonicalField (he : FieldsRead e) (h : canonicalField lib e f = .ok v) :
    Parsed v := by
  unfold canonicalField at h
  cases hf : f.isTuple with
  | true =>
    rw [hf, if_pos rfl] at h
    exact parsed_sorted (he f).1 h
  | false =>
    rw [hf, if_neg Bool.false_ne_true] at h
    obtain rfl := Except.ok.inj h
    exact (he f).2 hf

/-! ## The hash of a record -/

/-- Every element has its image in what `mapM` returns. -/
theorem exists_of_forall₂ {α β : Type} {R : α → β → Prop} {xs : List α} {ys : List β}
    (h : List.Forall₂ R xs ys) {x : α} (hx : x ∈ xs) : ∃ y, R x y := by
  induction h with
  | nil => cases hx
  | cons hxy _ ih =>
    rcases List.mem_cons.mp hx with rfl | hx
    · exact ⟨_, hxy⟩
    · exact ih hx

/-- The items of `to_fields`, field by field. -/
theorem toFields_eq_ok {fields : List (PyKey × PyVal)} (h : toFields lib e = .ok fields) :
    ∃ val : EvidenceField → PyVal, (∀ f, canonicalField lib e f = .ok (val f)) ∧
      fields = EvidenceField.all.map fun f => (.str f.name, val f) := by
  have hall := mapM_eq_ok.mp h
  have hok : ∀ f, ∃ v, canonicalField lib e f = .ok v := by
    intro f
    obtain ⟨p, hp⟩ := exists_of_forall₂ hall (EvidenceField.mem_all f)
    obtain ⟨v, hv, -⟩ := map_eq_ok.mp hp
    exact ⟨v, hv⟩
  choose val hval using hok
  have hmap : List.Forall₂ (fun f p => p = ((PyKey.str f.name, val f) : PyKey × PyVal))
      EvidenceField.all fields := by
    refine hall.imp fun f p hp => ?_
    rw [hval f] at hp
    exact (Except.ok.inj hp).symm
  refine ⟨val, hval, ?_⟩
  rw [← List.forall₂_eq_eq_eq, List.forall₂_map_right_iff]
  exact hmap.flip

theorem contentHash_eq_ok {parentHash : Str} (hh : contentHash P lib parentHash e = .ok h) :
    ∃ hashed b, hashedDict lib parentHash e = .ok hashed ∧
      encode (render canonicalStyle (toJson P.keySort true hashed)) = some b ∧
      h = P.hexdigest b := by
  obtain ⟨hashed, hhashed, htexts⟩ := bind_eq_ok.mp hh
  obtain ⟨text, htext, hbytes⟩ := bind_eq_ok.mp htexts
  obtain ⟨b, hb, hdigest⟩ := bind_eq_ok.mp hbytes
  unfold dumps at htext
  split at htext
  · cases htext
  · obtain rfl := Except.ok.inj htext
    exact ⟨hashed, b, hhashed, encodeE_eq_ok.mp hb, (Except.ok.inj hdigest).symm⟩

theorem contentHash_ne_genesis (hP : CollisionFree P) {parentHash : Str}
    (hh : contentHash P lib parentHash e = .ok h) : h ≠ genesisHash := by
  obtain ⟨-, b, -, -, rfl⟩ := contentHash_eq_ok hh
  exact hP.ne_genesis b

/-- One hash, one tree. -/
theorem toJson_eq_of_contentHash_eq (hP : Function.Injective P.sha256) {p' : Str}
    (hh : contentHash P lib p e = .ok h) (hh' : contentHash P lib p' e' = .ok h) :
    ∃ v w, hashedDict lib p e = .ok v ∧ hashedDict lib p' e' = .ok w ∧
      toJson P.keySort true v = toJson P.keySort true w := by
  obtain ⟨v, b, hv, hb, rfl⟩ := contentHash_eq_ok hh
  obtain ⟨w, b', hw, hb', heq⟩ := contentHash_eq_ok hh'
  obtain rfl := hexdigest_inj hP heq
  exact ⟨v, w, hv, hw, render_injective canonicalStyle rfl (encode_injective hb hb')⟩

/-- The evidences are hashed as the same values. -/
def SameHashed (lib : SpineLib) (e e' : DecisionEvidence lib) : Prop :=
  ∀ f, ∃ v w, canonicalField lib e f = .ok v ∧ canonicalField lib e' f = .ok w ∧ Same v w

/-- The items that are hashed. -/
def hashedItems (parentHash : Str) (val : EvidenceField → PyVal) : List (PyKey × PyVal) :=
  (.str (lit "parent_hash"), .str parentHash) :: EvidenceField.all.map fun f => (.str f.name, val f)

theorem hashedDict_eq_ok (h : hashedDict lib p e = .ok v) :
    ∃ val, (∀ f, canonicalField lib e f = .ok (val f)) ∧ v = .dict (hashedItems p val) := by
  obtain ⟨fields, hfields, h⟩ := bind_eq_ok.mp h
  obtain ⟨val, hval, rfl⟩ := toFields_eq_ok hfields
  exact ⟨val, hval, (Except.ok.inj h).symm⟩

theorem mem_hashedItems {val : EvidenceField → PyVal} {k : PyKey} :
    (k, v) ∈ hashedItems p val ↔
      (k = .str (lit "parent_hash") ∧ v = .str p) ∨ ∃ f : EvidenceField, k = .str f.name ∧
      v = val f := by
  unfold hashedItems
  rw [List.mem_cons, Prod.mk.injEq, List.mem_map]
  refine or_congr_right ⟨?_, ?_⟩
  · rintro ⟨f, -, heq⟩
    obtain ⟨rfl, rfl⟩ := Prod.mk.inj heq
    exact ⟨f, rfl, rfl⟩
  · rintro ⟨f, rfl, rfl⟩
    exact ⟨f, EvidenceField.mem_all f, rfl⟩

theorem parsed_hashedItems {val : EvidenceField → PyVal} (hval : ∀ f, Parsed (val f)) :
    Parsed (.dict (hashedItems p val)) := by
  have hkeys : (hashedItems p val).map Prod.fst =
      PyKey.str (lit "parent_hash") :: EvidenceField.all.map fun f => .str f.name := by
    rw [hashedItems, List.map_cons, List.map_map]
    rfl
  refine .dict ⟨?_, ?_⟩ (parsedItems_iff.mpr ?_)
  · intro q hq
    rcases mem_hashedItems.mp hq with ⟨hk, -⟩ | ⟨f, hk, -⟩
    · rw [hk]
      rfl
    · rw [hk]
      rfl
  · rw [hkeys]
    decide +kernel
  · intro q hq
    rcases mem_hashedItems.mp hq with ⟨-, hv⟩ | ⟨f, -, hv⟩
    · rw [hv]
      exact .str p
    · rw [hv]
      exact hval f

/-- **The hash commits to the parent and to every field**, to the lists as far as they are sorted.
-/
theorem contentHash_inj (hP : Function.Injective P.sha256) {p' : Str} (he : FieldsRead e)
    (he' : FieldsRead e') (hh : contentHash P lib p e = .ok h)
    (hh' : contentHash P lib p' e' = .ok h) : p = p' ∧ SameHashed lib e e' := by
  obtain ⟨v, w, hv, hw, htree⟩ := toJson_eq_of_contentHash_eq hP hh hh'
  obtain ⟨val, hval, rfl⟩ := hashedDict_eq_ok hv
  obtain ⟨val', hval', rfl⟩ := hashedDict_eq_ok hw
  have hsame : Same (.dict (hashedItems p val)) (.dict (hashedItems p' val')) :=
    same_of_toJson_eq P.keySort _ _ (parsed_hashedItems fun f => parsed_canonicalField he (hval f))
      (parsed_hashedItems fun f => parsed_canonicalField he' (hval' f)) htree
  constructor
  · obtain ⟨u, hu, hpu⟩ := same_of_mem hsame (mem_hashedItems.mpr (.inl ⟨rfl, rfl⟩))
    rcases mem_hashedItems.mp hu with ⟨-, rfl⟩ | ⟨f, hk, -⟩
    · cases hpu
      rfl
    · exact absurd (PyKey.str.inj hk).symm f.name_ne_parentHash
  · intro f
    obtain ⟨u, hu, hfu⟩ := same_of_mem hsame (mem_hashedItems.mpr (.inr ⟨f, rfl, rfl⟩))
    rcases mem_hashedItems.mp hu with ⟨hk, -⟩ | ⟨g, hk, rfl⟩
    · exact absurd (PyKey.str.inj hk) f.name_ne_parentHash
    · obtain rfl := EvidenceField.name_injective (PyKey.str.inj hk)
      exact ⟨val f, val' f, hval f, hval' f, hfu⟩

/-! ## The evidence of a row -/

theorem build_eq_ok {get : EvidenceField → PyVal} (h : build lib get = .ok e) :
    e.get = get := by
  unfold build at h
  split at h
  · cases h
  · obtain rfl := Except.ok.inj h
    rfl

theorem evidenceFromFields_eq_ok {fields : PyVal} (h : evidenceFromFields lib now fields = .ok e) :
    ∃ items, fields = .dict items ∧ ∀ f, fieldValue now items f = some (e.get f) := by
  unfold evidenceFromFields at h
  split at h
  next items =>
    split at h
    next hcond =>
      refine ⟨items, rfl, fun f => ?_⟩
      obtain ⟨v, hv⟩ :=
        Option.isSome_iff_exists.mp (List.all_eq_true.mp hcond.2 f (EvidenceField.mem_all f))
      rw [build_eq_ok h]
      show fieldValue now items f = some ((fieldValue now items f).getD .none)
      rw [hv]
      rfl
    · cases h
  · cases h

theorem fieldsRead_default (h : f.default now = some v) :
    Readable v ∧ (f.isTuple = false → Parsed v) := by
  cases f <;> simp only [EvidenceField.default, Option.some.injEq, reduceCtorEq] at h
  all_goals
    subst h
    first
      | exact ⟨.inl (.str _), fun _ => .str _⟩
      | exact ⟨.inl .none, fun _ => .none⟩
      | exact ⟨.inl (.bool _), fun _ => .bool _⟩
      | exact ⟨.inr ⟨[], rfl, fun _ hx => by cases hx⟩, fun hf => by cases hf⟩

theorem fieldsRead_of_rowEvidence (h : rowEvidence lib now row = .ok e) : FieldsRead e := by
  obtain ⟨fields, hloads, h⟩ := bind_eq_ok.mp h
  obtain ⟨items, rfl, hvalue⟩ := evidenceFromFields_eq_ok h
  intro f
  have hf := hvalue f
  unfold fieldValue at hf
  split at hf
  next v hv =>
    have hparsed : Parsed v := by
      cases parsed_of_loads hloads with
      | dict _ hitems => exact parsedItems_iff.mp hitems _ (getItem_mem hv)
    rw [← Option.some.inj hf]
    unfold tupled
    split
    next xs htuple =>
      refine ⟨.inr ⟨xs, rfl, ?_⟩, fun hnot => by rw [htuple] at hnot; cases hnot⟩
      cases hparsed with
      | list hxs => exact parsedElems_iff.mp hxs
    · exact ⟨.inl hparsed, fun _ => hparsed⟩
  · exact fieldsRead_default hf

/-! ## Two spines -/

/-- The rows are hashed alike: they have one parent, one hash, and the same hashed values. -/
structure SameRow (lib : SpineLib) (clock clock' : SpineRow → Str) (a b : SpineRow) : Prop where
  parentHash : a.parentHash = b.parentHash
  contentHash : a.contentHash = b.contentHash
  evidence : ∃ e e', rowEvidence lib (clock a) a = .ok e ∧ rowEvidence lib (clock' b) b = .ok e' ∧
    SameHashed lib e e'

theorem sameRow_of_hash_eq (hP : Function.Injective P.sha256) {clock clock' : SpineRow → Str}
    {a b : SpineRow}
    (ha : recomputed P lib (clock a) a = .ok a.contentHash)
    (hb : recomputed P lib (clock' b) b = .ok b.contentHash)
    (h : a.contentHash = b.contentHash) : SameRow lib clock clock' a b := by
  obtain ⟨e, he, hhash⟩ := bind_eq_ok.mp ha
  obtain ⟨e', he', hhash'⟩ := bind_eq_ok.mp hb
  rw [← h] at hhash'
  obtain ⟨hparent, hsame⟩ :=
    contentHash_inj hP (fieldsRead_of_rowEvidence he) (fieldsRead_of_rowEvidence he') hhash hhash'
  exact ⟨hparent, h, e, e', he, he', hsame⟩

theorem ValidSpine.ne_genesis {clock : SpineRow → Str} {rows : List SpineRow} (hP : CollisionFree P)
    (h : ValidSpine P lib clock rows) : ∀ r ∈ rows, r.contentHash ≠ genesisHash := by
  intro r hr
  obtain ⟨e, -, hhash⟩ := bind_eq_ok.mp (h.hashed r hr)
  exact contentHash_ne_genesis hP hhash

theorem lastHash_eq_tip (rows : List SpineRow) :
    lastHash rows = tip SpineRow.contentHash genesisHash rows :=
  (tip_eq_getLast? SpineRow.contentHash genesisHash rows).symm

/-- One value of a field, or one tuple. -/
inductive SameField : PyVal → PyVal → Prop where
  | value {v w : PyVal} (h : Same v w) : SameField v w
  | tuple {xs ys : List PyVal} (h : SameElems xs ys) : SameField (.tuple xs) (.tuple ys)

/-- `get` and `trail` report the same of the rows, read at the times `now` and `now'`: the evidence,
the id of the decision, the sequence number in the audit chain, and the task that the record is
found under. -/
structure Reports (lib : SpineLib) (now now' : Str) (a b : SpineRow) : Prop where
  taskId : a.taskId = b.taskId
  records : ∃ x y, rowToRecord lib now a = .ok x ∧ rowToRecord lib now' b = .ok y ∧
    x.decisionId = y.decisionId ∧
    x.auditSeq = y.auditSeq ∧ ∀ f, SameField (x.evidence.get f) (y.evidence.get f)

variable {clock : SpineRow → Str}

/-- The strings among some values. -/
def texts : List PyVal → Option (List Str)
  | [] => some []
  | .str s :: xs => (texts xs).map (s :: ·)
  | _ :: _ => none

end Evidence
