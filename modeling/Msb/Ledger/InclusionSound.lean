import Msb.Ledger.Inclusion

/-!
# What a receipt proves

A receipt that is accepted against the root of some records is of one of them. The receipt comes
from elsewhere: its index, its size, its path and the widths of its siblings are arbitrary.

SHA-256 stands as a function into 32 bytes, so it cannot be injective on all texts. What is asked
of it is that no two of the texts that are digested, on the way to the root and when the receipt
is walked, collide. That a leaf starts with 0 and a node with 1 then keeps them apart, and the
width of a digest says where in a node's text the right one begins.

* `leafHash_mem` — the record of an accepted receipt is in the list, and its path is of full depth
* `accepted_position` — which position an accepted receipt speaks of
* `merkleRoot_injective` — the root commits to the list
-/

namespace Ledger

open Py PaddedTree

variable (P : Platform)

/-- No text of the one list collides with a text of the other. -/
def NoCollision (xs ys : List Bytes) : Prop :=
  ∀ a ∈ xs, ∀ b ∈ ys, P.sha256 a = P.sha256 b → a = b

instance instDecidableNoCollision (xs ys : List Bytes) : Decidable (NoCollision P xs ys) := by
  unfold NoCollision
  infer_instance

/-- The text of a leaf. -/
def leafInput (b : Bytes) : Bytes := 0 :: b

/-- The text of a node. -/
def nodeInput (p : Bytes × Bytes) : Bytes := 1 :: (p.1 ++ p.2)

/-- The texts that are digested on the way to the root. -/
def rootInputs (recordHashes : List Str) : List Bytes :=
  let texts := (recordHashes.filterMap encode).map leafInput
  texts ++ ((merkleLevels P (texts.map P.sha256)).dropLast.flatMap pairs).map nodeInput

/-- The texts that are digested when a receipt is walked. -/
def verifyInputs (proof : InclusionProof) : List Bytes :=
  match encode proof.leafHash, proof.path.mapM fromHex with
  | some b, some path =>
    leafInput b
      :: (walked (nodeOf P) (P.sha256 (leafInput b)) proof.leafIndex.toNat path).map nodeInput
  | _, _ => []

variable {P}

/-! ## The texts of leaves and nodes -/

theorem leafInput_ne_nodeInput (b : Bytes) (p : Bytes × Bytes) : leafInput b ≠ nodeInput p := by
  intro h
  simp [leafInput, nodeInput] at h

/-- What a leaf's digest is taken of. -/
theorem leafDigest_eq_ok {recordHash : Str} {leaf : Bytes}
    (h : leafDigest P recordHash = .ok leaf) :
    ∃ b, encode recordHash = some b ∧ leaf = P.sha256 (leafInput b) := by
  obtain ⟨b, hb, hleaf⟩ := bind_eq_ok.mp h
  exact ⟨b, encodeE_eq_ok.mp hb, (Except.ok.inj hleaf).symm⟩

/-- The texts of the leaves, record by record. -/
theorem texts_of_leaves : ∀ {recordHashes : List Str} {leaves : List Bytes},
    recordHashes.mapM (leafDigest P) = .ok leaves →
    recordHashes.map encode = (recordHashes.filterMap encode).map some ∧
      leaves = ((recordHashes.filterMap encode).map leafInput).map P.sha256
  | [], leaves, h => by
    obtain rfl := Except.ok.inj h
    exact ⟨rfl, rfl⟩
  | recordHash :: recordHashes, leaves, h => by
    rw [List.mapM_cons] at h
    obtain ⟨leaf, hleaf, h⟩ := bind_eq_ok.mp h
    obtain ⟨rest, hrest, h⟩ := bind_eq_ok.mp h
    obtain rfl := Except.ok.inj h
    obtain ⟨b, hb, rfl⟩ := leafDigest_eq_ok hleaf
    obtain ⟨htexts, rfl⟩ := texts_of_leaves hrest
    rw [List.filterMap_cons_some hb]
    simp only [List.map_cons, hb, htexts, and_self]

/-- A record is known by its text. -/
theorem getElem?_of_texts {recordHashes : List Str} {j : Nat} {recordHash : Str} {b : Bytes}
    (htexts : recordHashes.map encode = (recordHashes.filterMap encode).map some)
    (hb : (recordHashes.filterMap encode)[j]? = some b) (hrecord : encode recordHash = some b) :
    recordHashes[j]? = some recordHash := by
  have hj := congrArg (·[j]?) htexts
  simp only [List.getElem?_map, hb, Option.map_some] at hj
  obtain ⟨stored, hstored, heq⟩ := Option.map_eq_some_iff.mp hj
  rw [hstored, encode_injective heq hrecord]

theorem texts_length {recordHashes : List Str}
    (htexts : recordHashes.map encode = (recordHashes.filterMap encode).map some) :
    (recordHashes.filterMap encode).length = recordHashes.length := by
  simpa using (congrArg List.length htexts).symm

theorem texts_nodup {recordHashes : List Str} (hdistinct : recordHashes.Nodup)
    (htexts : recordHashes.map encode = (recordHashes.filterMap encode).map some) :
    (recordHashes.filterMap encode).Nodup := by
  refine List.nodup_map_iff (Option.some_injective _) |>.mp ?_
  rw [← htexts]
  refine (List.nodup_map_iff_inj_on hdistinct).mpr fun a ha b hb heq => ?_
  have hmem : encode a ∈ (recordHashes.filterMap encode).map some :=
    htexts ▸ List.mem_map_of_mem ha
  obtain ⟨x, -, hx⟩ := List.mem_map.mp hmem
  exact encode_injective hx.symm (heq ▸ hx.symm)

/-! ## Digests have one width -/

section Width

variable (hwidth : ∀ b, (P.sha256 b).length = 32)
include hwidth

theorem joined_width : ∀ (k : Nat) {level : List Bytes}, (∀ x ∈ level, x.length = 32) →
    ∀ p ∈ joined (nodeOf P) k level, p.1.length = 32 ∧ p.2.length = 32
  | 0, _, _, p, hp => by simp [joined] at hp
  | k + 1, level, hlevel, p, hp => by
    rw [joined, List.mem_append] at hp
    rcases hp with hp | hp
    · have hmem := mem_of_mem_pairs hp
      exact ⟨hlevel _ hmem.1, hlevel _ hmem.2⟩
    · refine joined_width k (fun x hx => ?_) p hp
      obtain ⟨q, -, rfl⟩ := List.mem_map.mp hx
      exact hwidth _

/-- On a walk the one side is a digest, the other is what the receipt says. -/
theorem walked_width : ∀ (path : List Bytes) {x : Bytes} {i : Nat}, x.length = 32 →
    ∀ q ∈ walked (nodeOf P) x i path, q.1.length = 32 ∨ q.2.length = 32
  | [], _, _, _, q, hq => by simp [walked] at hq
  | s :: path, x, i, hx, q, hq => by
    rw [walked, List.mem_cons] at hq
    rcases hq with rfl | hq
    · unfold side
      by_cases heven : i % 2 = 0
      · rw [if_pos heven]
        exact .inl hx
      · rw [if_neg heven]
        exact .inr hx
    · exact walked_width path (hwidth _) q hq

omit hwidth in
/-- The text of a node says what its two sides are, if one of them is a digest. -/
theorem nodeInput_inj {p q : Bytes × Bytes} (hp : p.1.length = 32 ∧ p.2.length = 32)
    (hq : q.1.length = 32 ∨ q.2.length = 32) (h : nodeInput p = nodeInput q) : p = q := by
  have htext : p.1 ++ p.2 = q.1 ++ q.2 := (List.cons.inj h).2
  have hlen := congrArg List.length htext
  rw [List.length_append, List.length_append] at hlen
  obtain ⟨hleft, hright⟩ := List.append_inj htext (by omega)
  exact Prod.ext hleft hright

end Width

/-! ## The tree of some records -/

/-- The tree over `recordHashes`, with the texts that were digested to build it. -/
structure TreeOf (P : Platform) (recordHashes : List Str) (leaves : List Bytes) (d : Nat)
    (node : Bytes) : Prop where
  texts : recordHashes.map encode = (recordHashes.filterMap encode).map some
  leaves_eq : leaves = ((recordHashes.filterMap encode).map leafInput).map P.sha256
  ne_nil : leaves ≠ []
  root : climb (nodeOf P) (d + 1) leaves = [node]
  levels : merkleLevels P leaves = tower P (d + 1) leaves
  inputs : rootInputs P recordHashes = (recordHashes.filterMap encode).map leafInput
    ++ (joined (nodeOf P) (d + 1) leaves).map nodeInput

theorem merkleRoot_tree {recordHashes : List Str} {root : Str}
    (h : merkleRoot P recordHashes = .ok root) :
    recordHashes = [] ∧ root = emptyRoot ∨
      ∃ leaves d node, recordHashes.mapM (leafDigest P) = .ok leaves ∧
        TreeOf P recordHashes leaves d node ∧ root = hex node := by
  obtain ⟨leaves, hleaves, hempty | ⟨d, node, hclimb, htower, rfl⟩⟩ := merkleRoot_eq_ok h
  · exact .inl hempty
  · obtain ⟨htexts, hleaftexts⟩ := texts_of_leaves hleaves
    refine .inr ⟨leaves, d, node, hleaves, ⟨htexts, hleaftexts, ?_, hclimb, htower, ?_⟩, rfl⟩
    · rintro rfl
      simp [merkleLevels, tower] at htower
    · rw [rootInputs, ← hleaftexts, htower, tower_joined]

namespace TreeOf

variable {recordHashes : List Str} {leaves : List Bytes} {d : Nat} {node : Bytes}

theorem leaves_width (t : TreeOf P recordHashes leaves d node)
    (hwidth : ∀ b, (P.sha256 b).length = 32) : ∀ x ∈ leaves, x.length = 32 := by
  intro x hx
  rw [t.leaves_eq] at hx
  obtain ⟨b, -, rfl⟩ := List.mem_map.mp hx
  exact hwidth b

theorem leaves_length (t : TreeOf P recordHashes leaves d node) :
    leaves.length = recordHashes.length := by
  rw [t.leaves_eq, List.length_map, List.length_map, texts_length t.texts]

/-- A leaf is the digest of one of the texts. -/
theorem mem_leaves (t : TreeOf P recordHashes leaves d node) {x : Bytes} (hx : x ∈ leaves) :
    ∃ b ∈ recordHashes.filterMap encode, x = P.sha256 (leafInput b) := by
  rw [t.leaves_eq, List.map_map] at hx
  obtain ⟨b, hb, rfl⟩ := List.mem_map.mp hx
  exact ⟨b, hb, rfl⟩

theorem leaf_mem_inputs (t : TreeOf P recordHashes leaves d node) {b : Bytes}
    (hb : b ∈ recordHashes.filterMap encode) : leafInput b ∈ rootInputs P recordHashes := by
  rw [t.inputs]
  exact List.mem_append_left _ (List.mem_map_of_mem hb)

theorem node_mem_inputs (t : TreeOf P recordHashes leaves d node) {p : Bytes × Bytes}
    (hp : p ∈ joined (nodeOf P) (d + 1) leaves) : nodeInput p ∈ rootInputs P recordHashes := by
  rw [t.inputs]
  exact List.mem_append_right _ (List.mem_map_of_mem hp)

end TreeOf

/-! ## An accepted receipt -/

/-- What `verify_inclusion` has checked when it says yes. -/
theorem verifyInclusion_true {proof : InclusionProof} {root : Str}
    (h : verifyInclusion P proof (some root) = .ok true) :
    (0 ≤ proof.leafIndex ∧ proof.leafIndex < proof.treeSize) ∧
      ∃ b path, encode proof.leafHash = some b ∧ proof.path.mapM fromHex = some path ∧
        hex (walk (nodeOf P) (P.sha256 (leafInput b)) proof.leafIndex.toNat path) = root := by
  unfold verifyInclusion at h
  by_cases hrange : 0 ≤ proof.leafIndex ∧ proof.leafIndex < proof.treeSize
  · rw [if_neg (not_not.mpr hrange)] at h
    obtain ⟨node, hnode, h⟩ := bind_eq_ok.mp h
    obtain ⟨b, hb, rfl⟩ := leafDigest_eq_ok hnode
    rw [rootOnPath_eq] at h
    cases hpath : proof.path.mapM fromHex with
    | none => simp [hpath] at h
    | some path =>
      refine ⟨hrange, b, path, hb, rfl, ?_⟩
      simp only [hpath, Option.map_some, ne_eq, reduceCtorEq, not_false_eq_true, true_and,
        Option.some.injEq] at h
      by_cases hroot : hex (walk (nodeOf P) (P.sha256 (leafInput b)) proof.leafIndex.toNat path)
          = proof.root
      · by_cases hexpected : root = proof.root
        · rw [hroot, hexpected]
        · simp [hroot, hexpected] at h
      · simp [hroot] at h
  · rw [if_pos hrange] at h
    simp at h

theorem length_of_mapM_fromHex {path : List Str} {siblings : List Bytes}
    (h : path.mapM fromHex = some siblings) : siblings.length = path.length := by
  induction path generalizing siblings with
  | nil =>
    obtain rfl := Option.some.inj h
    rfl
  | cons s path ih =>
    rw [List.mapM_cons] at h
    obtain ⟨b, -, h⟩ := Option.bind_eq_some_iff.mp h
    obtain ⟨rest, hrest, h⟩ := Option.bind_eq_some_iff.mp h
    obtain rfl := Option.some.inj h
    rw [List.length_cons, List.length_cons, ih hrest]

/-- Where the records have a root that is not the empty one, an accepted receipt has a path of the
tree's depth, and its record stands at the place of its index. -/
theorem accepted_place {recordHashes : List Str} {root : Str} {proof : InclusionProof}
    (hwidth : ∀ b, (P.sha256 b).length = 32)
    (hcol : NoCollision P (rootInputs P recordHashes) (verifyInputs P proof))
    (hzero : recordHashes = [] → ∀ b, P.hexdigest b ≠ emptyRoot)
    (hroot : merkleRoot P recordHashes = .ok root)
    (haccepted : verifyInclusion P proof (some root) = .ok true) :
    ∃ leaves, recordHashes.mapM (leafDigest P) = .ok leaves ∧
      (merkleLevels P leaves).length = proof.path.length + 1 ∧
      recordHashes.length ≤ 2 ^ proof.path.length ∧
      recordHashes[place proof.path.length recordHashes.length proof.leafIndex.toNat]?
        = some proof.leafHash := by
  obtain ⟨-, b, path, hb, hpath, hwalk⟩ := verifyInclusion_true haccepted
  have hpathlen := length_of_mapM_fromHex hpath
  obtain ⟨rfl, rfl⟩ | ⟨leaves, d, node, hleaves, tree, rfl⟩ := merkleRoot_tree hroot
  · -- no digest is the root of the empty tree
    cases path with
    | nil => exact absurd hwalk (hzero rfl _)
    | cons s path =>
      obtain ⟨q, -, hq⟩ := walk_eq_node (x := P.sha256 (leafInput b))
        (i := proof.leafIndex.toNat) (List.cons_ne_nil s path)
      rw [hq] at hwalk
      exact absurd hwalk (hzero rfl _)
  have hwalk := hex_injective hwalk
  have hclimb := tree.root
  have hverifyInputs : verifyInputs P proof = leafInput b
      :: (walked (nodeOf P) (P.sha256 (leafInput b)) proof.leafIndex.toNat path).map nodeInput := by
    simp only [verifyInputs, hb, hpath]
  rw [hverifyInputs] at hcol
  -- inputs of nodes with one digest are the same, as they have one width
  have hinj : ∀ p ∈ joined (nodeOf P) (d + 1) leaves,
      ∀ q ∈ walked (nodeOf P) (P.sha256 (leafInput b)) proof.leafIndex.toNat path,
      nodeOf P p = nodeOf P q → p = q := by
    intro p hp q hq heq
    refine nodeInput_inj (joined_width hwidth _ (tree.leaves_width hwidth) p hp)
      (walked_width hwidth _ (hwidth _) q hq) (hcol _ (tree.node_mem_inputs hp) _ ?_ heq)
    exact List.mem_cons_of_mem _ (List.mem_map_of_mem hq)
  -- a leaf is no node, so the walk goes all the way up
  have hdepth : path.length = d + 1 := by
    refine walk_length hclimb hwalk hinj ?_ ?_
    · intro p hp heq
      exact leafInput_ne_nodeInput b p
        (hcol _ (tree.node_mem_inputs hp) _ List.mem_cons_self heq.symm).symm
    · intro x hx q hq heq
      obtain ⟨t, ht, rfl⟩ := tree.mem_leaves hx
      refine leafInput_ne_nodeInput t q (hcol _ (tree.leaf_mem_inputs ht) _ ?_ heq)
      exact List.mem_cons_of_mem _ (List.mem_map_of_mem hq)
  rw [← hdepth] at hclimb hinj
  have hplace := walk_sound hclimb hwalk hinj
  have hbound := length_le_of_climb hclimb
  refine ⟨leaves, hleaves, ?_, ?_, ?_⟩
  · rw [tree.levels, tower_length, ← hdepth, hpathlen]
  · rw [← hpathlen, ← tree.leaves_length]
    exact hbound
  · rw [hpathlen, tree.leaves_length, tree.leaves_eq, List.getElem?_map,
      List.getElem?_map] at hplace
    obtain ⟨text, htext, heq⟩ := Option.map_eq_some_iff.mp hplace
    obtain ⟨t, ht, rfl⟩ := Option.map_eq_some_iff.mp htext
    have hsame : leafInput t = leafInput b :=
      hcol _ (tree.leaf_mem_inputs (List.mem_of_getElem? ht)) _ List.mem_cons_self heq
    obtain rfl := (List.cons.inj hsame).2
    exact getElem?_of_texts tree.texts ht hb

/-! ## Soundness -/

/-- **Soundness.** The record of an accepted receipt is one of the list, and its path is as long
as the tree is deep. -/
theorem leafHash_mem {recordHashes : List Str} {root : Str} {proof : InclusionProof}
    (hwidth : ∀ b, (P.sha256 b).length = 32)
    (hcol : NoCollision P (rootInputs P recordHashes) (verifyInputs P proof))
    (hne : recordHashes ≠ []) (hroot : merkleRoot P recordHashes = .ok root)
    (haccepted : verifyInclusion P proof (some root) = .ok true) :
    proof.leafHash ∈ recordHashes ∧
      ∃ leaves, recordHashes.mapM (leafDigest P) = .ok leaves ∧
        (merkleLevels P leaves).length = proof.path.length + 1 := by
  obtain ⟨leaves, hleaves, hdepth, -, hplace⟩ :=
    accepted_place hwidth hcol (fun h => absurd h hne) hroot haccepted
  exact ⟨List.mem_of_getElem? hplace, leaves, hleaves, hdepth⟩

/-- The receipt of the third record. -/
theorem leafHash_mem_counting : lit "c" ∈ threeRecords ∧
    ∃ leaves, threeRecords.mapM (leafDigest counting) = .ok leaves ∧
      (merkleLevels counting leaves).length = thirdReceipt.path.length + 1 :=
  @leafHash_mem counting threeRecords thirdReceipt.root thirdReceipt counting_width
    (by decide +kernel) (by decide) (by decide +kernel) (by decide +kernel)

/-! ## Positions -/

/-- **Position.** Among distinct records, an accepted receipt speaks of one position. It is the
one that the low bits of the index name, with what lies in the padding read as the last entry of
its level, and the index itself where the index is one of the list. -/
theorem accepted_position {recordHashes : List Str} {root : Str} {proof : InclusionProof}
    (hwidth : ∀ b, (P.sha256 b).length = 32)
    (hcol : NoCollision P (rootInputs P recordHashes) (verifyInputs P proof))
    (hzero : recordHashes = [] → ∀ b, P.hexdigest b ≠ emptyRoot)
    (hdistinct : recordHashes.Nodup) (hroot : merkleRoot P recordHashes = .ok root)
    (haccepted : verifyInclusion P proof (some root) = .ok true) :
    ∃ j, recordHashes[j]? = some proof.leafHash ∧
      (∀ k, recordHashes[k]? = some proof.leafHash → k = j) ∧
      j = place proof.path.length recordHashes.length proof.leafIndex.toNat ∧
      (proof.leafIndex < recordHashes.length ∨ proof.treeSize = recordHashes.length →
        proof.leafIndex = j) := by
  obtain ⟨leaves, -, -, hbound, hplace⟩ :=
    accepted_place hwidth hcol hzero hroot haccepted
  obtain ⟨⟨hpos, hlt⟩, -⟩ := verifyInclusion_true haccepted
  refine ⟨_, hplace, fun k hk => ?_, rfl, fun hin => ?_⟩
  · obtain ⟨hklt, hkeq⟩ := List.getElem?_eq_some_iff.mp hk
    obtain ⟨hjlt, hjeq⟩ := List.getElem?_eq_some_iff.mp hplace
    exact (List.Nodup.getElem_inj_iff hdistinct).mp (hkeq.trans hjeq.symm)
  · have hin' : proof.leafIndex.toNat < recordHashes.length := by omega
    rw [place_eq_self hin' hbound]
    omega

/-- The receipt of the third record speaks of the third position. -/
theorem accepted_position_counting : ∃ j, threeRecords[j]? = some (lit "c") ∧
    (∀ k, threeRecords[k]? = some (lit "c") → k = j) ∧
    j = place 2 3 2 ∧ ((2 : Int) < 3 ∨ (3 : Int) = 3 → (2 : Int) = j) :=
  @accepted_position counting threeRecords thirdReceipt.root thirdReceipt counting_width
    (by decide +kernel) (fun h => absurd h (by decide)) (by decide) (by decide +kernel)
    (by decide +kernel)

/-- The receipt of the only record, with the position of the padding in place of its own. -/
def paddingReceipt : InclusionProof :=
  { receiptOf counting [lit "a"] 0 with leafIndex := 1, treeSize := 2 }

/-- Neither the size nor the index of an accepted receipt need be those of the list: the record
that pads the tree has a receipt of its own. -/
theorem paddingReceipt_accepted : ¬ ∀ (P : Platform) (recordHashes : List Str) (root : Str)
    (proof : InclusionProof), (∀ b, (P.sha256 b).length = 32) →
    NoCollision P (rootInputs P recordHashes) (verifyInputs P proof) → recordHashes.Nodup →
    merkleRoot P recordHashes = .ok root → verifyInclusion P proof (some root) = .ok true →
    proof.treeSize = recordHashes.length ∧
      recordHashes[proof.leafIndex.toNat]? = some proof.leafHash := by
  intro h
  have hbound := h counting [lit "a"] paddingReceipt.root paddingReceipt counting_width
    (by decide +kernel) (by decide) (by decide +kernel) (by decide +kernel)
  exact absurd hbound (by decide +kernel)

/-! ## The root commits to the list -/

section

variable {a b : List Str} {la lb : List Bytes} {da db : Nat} {node : Bytes}

/-- Distinct records have distinct leaves. -/
theorem TreeOf.nodup (t : TreeOf P a la da node)
    (hcol : NoCollision P (rootInputs P a) (rootInputs P a)) (hdistinct : a.Nodup) : la.Nodup := by
  rw [t.leaves_eq, List.map_map]
  refine (List.nodup_map_iff_inj_on (texts_nodup hdistinct t.texts)).mpr fun x hx y hy heq => ?_
  exact (List.cons.inj (hcol _ (t.leaf_mem_inputs hx) _ (t.leaf_mem_inputs hy) heq)).2

/-- Records are known by their leaves. -/
theorem TreeOf.eq_of_leaves (ta : TreeOf P a la da node) (tb : TreeOf P b la db node)
    (hcol : NoCollision P (rootInputs P a) (rootInputs P b)) : a = b := by
  have hleaves := ta.leaves_eq.symm.trans tb.leaves_eq
  rw [List.map_map, List.map_map] at hleaves
  have htexts : a.filterMap encode = b.filterMap encode := by
    refine eq_of_map_eq (fun x hx y hy heq => ?_) hleaves
    exact (List.cons.inj (hcol _ (ta.leaf_mem_inputs hx) _ (tb.leaf_mem_inputs hy) heq)).2
  have hencoded : a.map encode = b.map encode := by rw [ta.texts, tb.texts, htexts]
  refine eq_of_map_eq (fun x hx y hy heq => ?_) hencoded
  obtain ⟨t, -, ht⟩ := List.mem_map.mp (ta.texts ▸ List.mem_map_of_mem hx)
  exact encode_injective ht.symm (heq ▸ ht.symm)

/-- Two trees of one root, the first at most as deep as the second, have the same records. -/
theorem TreeOf.eq_of_depth_le (ta : TreeOf P a la da node) (tb : TreeOf P b lb db node)
    (hwidth : ∀ b, (P.sha256 b).length = 32)
    (hcol : NoCollision P (rootInputs P a ++ rootInputs P b) (rootInputs P a ++ rootInputs P b))
    (ha : a.Nodup) (hb : b.Nodup) (hle : da ≤ db) : a = b := by
  have hcolOf : ∀ xs ys, xs ⊆ rootInputs P a ++ rootInputs P b →
      ys ⊆ rootInputs P a ++ rootInputs P b → NoCollision P xs ys :=
    fun xs ys hxs hys x hx y hy => hcol x (hxs hx) y (hys hy)
  have hleft := List.subset_append_left (rootInputs P a) (rootInputs P b)
  have hright := List.subset_append_right (rootInputs P a) (rootInputs P b)
  -- what is joined in either tree can be told from its digest
  have hinj : ∀ p ∈ joined (nodeOf P) (da + 1) la ++ joined (nodeOf P) (db + 1) lb,
      ∀ q ∈ joined (nodeOf P) (da + 1) la ++ joined (nodeOf P) (db + 1) lb,
      nodeOf P p = nodeOf P q → p = q := by
    have hside : ∀ p ∈ joined (nodeOf P) (da + 1) la ++ joined (nodeOf P) (db + 1) lb,
        (p.1.length = 32 ∧ p.2.length = 32) ∧
          nodeInput p ∈ rootInputs P a ++ rootInputs P b := by
      intro p hp
      rcases List.mem_append.mp hp with hp | hp
      · exact ⟨joined_width hwidth _ (ta.leaves_width hwidth) p hp,
          hleft (ta.node_mem_inputs hp)⟩
      · exact ⟨joined_width hwidth _ (tb.leaves_width hwidth) p hp,
          hright (tb.node_mem_inputs hp)⟩
    intro p hp q hq heq
    exact nodeInput_inj (hside p hp).1 (.inl (hside q hq).1.1)
      (hcol _ (hside p hp).2 _ (hside q hq).2 heq)
  obtain ⟨j, hj⟩ : ∃ j, db + 1 = j + (da + 1) := ⟨db - da, by omega⟩
  have hroot := tb.root
  rw [hj, climb_add] at hroot
  rw [hj, joined_add j (da + 1) lb] at hinj
  -- the second tree, cut off `j` levels up, is as deep as the first
  have hcut : la = climb (nodeOf P) j lb := by
    refine climb_injective (ta.nodup (hcolOf _ _ hleft hleft) ha) ?_ ?_
      (ta.root.trans hroot.symm)
    · refine climb_nodup (tb.nodup (hcolOf _ _ hright hright) hb) fun p hp q hq => ?_
      exact hinj p (List.mem_append_right _ (List.mem_append_left _ hp))
        q (List.mem_append_right _ (List.mem_append_left _ hq))
    · intro p hp q hq
      have hin : ∀ p ∈ joined (nodeOf P) (da + 1) la
            ++ joined (nodeOf P) (da + 1) (climb (nodeOf P) j lb),
          p ∈ joined (nodeOf P) (da + 1) la ++ (joined (nodeOf P) j lb
            ++ joined (nodeOf P) (da + 1) (climb (nodeOf P) j lb)) := by
        intro p hp
        rcases List.mem_append.mp hp with hp | hp
        · exact List.mem_append_left _ hp
        · exact List.mem_append_right _ (List.mem_append_right _ hp)
      exact hinj p (hin p hp) q (hin q hq)
  rcases Nat.eq_zero_or_pos j with rfl | hpos
  · subst hcut
    exact ta.eq_of_leaves tb (hcolOf _ _ hleft hright)
  · -- a leaf of the first tree would be a node of the second
    obtain ⟨x, hx⟩ := List.exists_mem_of_ne_nil _ ta.ne_nil
    obtain ⟨t, ht, rfl⟩ := ta.mem_leaves hx
    obtain ⟨p, hp, heq⟩ := eq_node_of_mem_climb hpos (hcut ▸ hx)
    have hin : p ∈ joined (nodeOf P) (db + 1) lb := by
      rw [hj, joined_add j (da + 1) lb]
      exact List.mem_append_left _ hp
    exact absurd (hcol _ (hleft (ta.leaf_mem_inputs ht)) _ (hright (tb.node_mem_inputs hin)) heq)
      (leafInput_ne_nodeInput t p)

end

/-- **The root commits to the list**, for lists without duplicates: also to its length, which the
padding alone would not tell. -/
theorem merkleRoot_injective {a b : List Str} {root : Str}
    (hwidth : ∀ b, (P.sha256 b).length = 32) (hzero : ∀ b, P.hexdigest b ≠ emptyRoot)
    (hcol : NoCollision P (rootInputs P a ++ rootInputs P b) (rootInputs P a ++ rootInputs P b))
    (ha : a.Nodup) (hb : b.Nodup) (hra : merkleRoot P a = .ok root)
    (hrb : merkleRoot P b = .ok root) : a = b := by
  have hnode : ∀ {c : List Str} {leaves : List Bytes} {d : Nat} {node : Bytes},
      TreeOf P c leaves d node → hex node ≠ emptyRoot := by
    intro c leaves d node t
    obtain ⟨p, -, rfl⟩ := eq_node_of_mem_climb (k := d + 1) (by omega)
      (t.root ▸ List.mem_singleton_self node)
    exact hzero _
  obtain ⟨rfl, rfl⟩ | ⟨la, da, na, -, ta, rfl⟩ := merkleRoot_tree hra
  · obtain ⟨rfl, -⟩ | ⟨lb, db, nb, -, tb, heq⟩ := merkleRoot_tree hrb
    · rfl
    · exact absurd heq.symm (hnode tb)
  · obtain ⟨rfl, heq⟩ | ⟨lb, db, nb, -, tb, heq⟩ := merkleRoot_tree hrb
    · exact absurd heq (hnode ta)
    · obtain rfl := hex_injective heq
      rcases Nat.le_total da db with hle | hle
      · exact ta.eq_of_depth_le tb hwidth hcol ha hb hle
      · refine (tb.eq_of_depth_le ta hwidth (fun x hx y hy => hcol x ?_ y ?_) hb ha hle).symm
        · exact List.mem_append.mpr (List.mem_append.mp hx).symm
        · exact List.mem_append.mpr (List.mem_append.mp hy).symm

/-- Three records. -/
theorem merkleRoot_injective_three : [lit "a", lit "b", lit "c"] = threeRecords :=
  @merkleRoot_injective counting _ _ thirdReceipt.root counting_width counting_ne_emptyRoot
    (by decide +kernel) (by decide) (by decide) (by decide +kernel)
    (by decide +kernel)

end Ledger
