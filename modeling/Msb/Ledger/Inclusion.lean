import Msb.Infra.PaddedTree
import Msb.Ledger.Merkle

/-!
# Receipts for one record

`inclusion_proof` and `verify_inclusion` of `merkle.py`. The levels of the tree are the padded
levels of `PaddedTree` over the leaf digests, and the receipt's path holds the partners on the
way up, so that the verifier walks to the root.

* `merkleLevels_tower` — the levels that are built, as levels of the padded tree
* `verifyInclusion_inclusionProof` — a receipt that was built is accepted
-/

namespace Ledger

open Py PaddedTree

variable (P : Platform)

/-- `InclusionProof` -/
structure InclusionProof where
  seq : Int
  leafHash : Str
  leafIndex : Int
  treeSize : Int
  root : Str
  path : List Str
  deriving DecidableEq

/-- The sibling on each level, the position halved from level to level. -/
def siblingPath : List (List Bytes) → Nat → Except PyError (List Str)
  | [], _ => .ok []
  | level :: levels, idx =>
    match level[idx ^^^ 1]? with
    | none => .error (.raised (lit "IndexError") (lit "list index out of range"))
    | some sibling => do
      let path ← siblingPath levels (idx / 2)
      .ok (hex sibling :: path)

/-- `inclusion_proof` -/
def inclusionProof (recordHashes : List Str) (leafIndex : Int) : Except PyError InclusionProof :=
  if recordHashes = [] then
    .error (.valueError (lit "cannot build an inclusion proof over an empty chain"))
  else if h : 0 ≤ leafIndex ∧ leafIndex.toNat < recordHashes.length then do
    let leaves ← recordHashes.mapM (leafDigest P)
    let levels := merkleLevels P leaves
    let path ← siblingPath levels.dropLast leafIndex.toNat
    .ok ⟨0, recordHashes.get ⟨leafIndex.toNat, h.2⟩, leafIndex, recordHashes.length,
      hex ((levels.getLastD []).headD []), path⟩
  else
    .error (.raised (lit "IndexError") (lit "leaf_index " ++ (intLit leafIndex).text
      ++ lit " out of range for " ++ (intLit recordHashes.length).text ++ lit " records"))

/-- The root that a path leads to. `none` is a sibling that is not hexadecimal. -/
def rootOnPath : Bytes → Nat → List Str → Option Bytes
  | node, _, [] => some node
  | node, idx, siblingHex :: path => do
    let sibling ← fromHex siblingHex
    rootOnPath (if idx % 2 = 0 then nodeDigest P node sibling else nodeDigest P sibling node)
      (idx / 2) path

/-- `verify_inclusion` -/
def verifyInclusion (proof : InclusionProof) (expectedRoot : Option Str) :
    Except PyError Bool :=
  if ¬ (0 ≤ proof.leafIndex ∧ proof.leafIndex < proof.treeSize) then .ok false
  else do
    let node ← leafDigest P proof.leafHash
    match rootOnPath P node proof.leafIndex.toNat proof.path with
    | none => .ok false
    | some node =>
      if hex node ≠ proof.root then .ok false
      else if expectedRoot ≠ none ∧ expectedRoot ≠ some proof.root then .ok false
      else .ok true

/-! ## The levels that are built -/

section

variable {P}

/-- `_node_digest` of a pair. -/
def nodeOf (P : Platform) (p : Bytes × Bytes) : Bytes := nodeDigest P p.1 p.2

/-- The levels of the tree up to `k` levels above `level`, the last one not padded. -/
def tower (P : Platform) : Nat → List Bytes → List (List Bytes)
  | 0, level => [level]
  | k + 1, level => padEven level :: tower P k (up (nodeOf P) level)

theorem padEven_of_even {level : List Bytes} (h : level.length % 2 = 0) :
    padEven level = level := by
  unfold padEven
  cases level.getLast? with
  | none => rfl
  | some last =>
    show (if level.length % 2 = 1 then level ++ [last] else level) = level
    rw [if_neg (by omega)]

theorem padEven_concat {level : List Bytes} {last : Bytes} (h : level.length % 2 = 0) :
    padEven (level ++ [last]) = level ++ [last, last] := by
  have hodd : (level ++ [last]).length % 2 = 1 := by
    rw [List.length_append, List.length_singleton]
    omega
  unfold padEven
  rw [List.getLast?_concat]
  show (if (level ++ [last]).length % 2 = 1 then level ++ [last] ++ [last]
    else level ++ [last]) = level ++ [last, last]
  rw [if_pos hodd, List.append_assoc, List.singleton_append]

/-- A level is of even length, or has a last entry after one of even length. -/
theorem even_or_concat (level : List Bytes) :
    level.length % 2 = 0 ∨
      ∃ init last, level = init ++ [last] ∧ init.length % 2 = 0 := by
  rcases List.eq_nil_or_concat level with rfl | ⟨init, last, rfl⟩
  · exact .inl rfl
  · rw [List.concat_eq_append, List.length_append, List.length_singleton]
    by_cases heven : init.length % 2 = 0
    · exact .inr ⟨init, last, rfl, heven⟩
    · exact .inl (by omega)

theorem padEven_cons_cons (a b : Bytes) (level : List Bytes) :
    padEven (a :: b :: level) = a :: b :: padEven level := by
  rcases even_or_concat level with heven | ⟨init, last, rfl, heven⟩
  · rw [padEven_of_even heven, padEven_of_even]
    rw [List.length_cons, List.length_cons]
    omega
  · have hlong : (a :: b :: init).length % 2 = 0 := by
      rw [List.length_cons, List.length_cons]
      omega
    rw [padEven_concat heven, ← List.cons_append, ← List.cons_append, padEven_concat hlong]
    rfl

/-- Padding does not change what is joined. -/
theorem pairs_padEven : ∀ level : List Bytes, pairs (padEven level) = pairs level
  | [] => rfl
  | [a] => rfl
  | a :: b :: level => by rw [padEven_cons_cons, pairs, pairs, pairs_padEven level]

theorem parents_padEven : ∀ level : List Bytes, parents P (padEven level) = up (nodeOf P) level
  | [] => rfl
  | [a] => rfl
  | a :: b :: level => by
    rw [padEven_cons_cons, parents, parents_padEven level, up, up, pairs, List.map_cons]
    rfl

/-- `level[idx ^ 1]` on a padded level is in range, and the entry that is joined with. -/
theorem padEven_getElem?_xor {level : List Bytes} {i : Nat} (hi : i < level.length) :
    (padEven level)[i ^^^ 1]? = partner level i := by
  unfold partner
  rcases Nat.mod_two_eq_zero_or_one i with heven | hodd
  · rw [if_pos heven, Nat.xor_one_of_even (Nat.even_iff.mpr heven)]
    rcases even_or_concat level with hlevel | ⟨init, last, rfl, hinit⟩
    · have hnext : i + 1 < level.length := by omega
      rw [padEven_of_even hlevel, List.getElem?_eq_getElem hnext, Option.some_or]
    · rw [padEven_concat hinit]
      rw [List.length_append, List.length_singleton] at hi
      by_cases hlast : i = init.length
      · subst hlast
        simp
      · rw [List.getElem?_append_left (by omega), List.getElem?_append_left (by omega),
          List.getElem?_eq_getElem (by omega), Option.some_or]
  · rw [if_neg (by omega), Nat.xor_one_of_odd (Nat.odd_iff.mpr hodd)]
    rcases even_or_concat level with hlevel | ⟨init, last, rfl, hinit⟩
    · rw [padEven_of_even hlevel]
    · rw [List.length_append, List.length_singleton] at hi
      rw [padEven_concat hinit, List.getElem?_append_left (by omega),
        List.getElem?_append_left (by omega)]

/-- Above a padded level stands a tower, up to a single node. -/
theorem levelsAbove_tower : ∀ (fuel : Nat) {level : List Bytes}, level ≠ [] →
    (padEven level).length ≤ fuel →
    ∃ d root, climb (nodeOf P) (d + 1) level = [root] ∧
      padEven level :: levelsAbove P fuel (padEven level) = tower P (d + 1) level
  | 0, level, hne, hfuel => by
    have hpos := List.length_pos_iff.mpr hne
    have hlen := padEven_length level
    omega
  | fuel + 1, level, hne, hfuel => by
    have hpos := List.length_pos_iff.mpr hne
    have hlen := padEven_length level
    have hlong : 1 < (padEven level).length := by omega
    have huplen := up_length (nodeOf P) level
    rw [levelsAbove, if_pos hlong, nextLevel, parents_padEven]
    by_cases hup : 1 < (up (nodeOf P) level).length
    · rw [if_pos hup]
      have hpad := padEven_length (up (nodeOf P) level)
      have hupne : up (nodeOf P) level ≠ [] := List.length_pos_iff.mp (by omega)
      obtain ⟨d, root, hroot, htower⟩ := levelsAbove_tower fuel hupne (by omega)
      exact ⟨d + 1, root, hroot, by rw [htower, ← tower]⟩
    · rw [if_neg hup]
      obtain ⟨root, hroot⟩ := List.length_eq_one_iff.mp
        (show (up (nodeOf P) level).length = 1 by omega)
      refine ⟨0, root, hroot, ?_⟩
      rw [hroot, tower, tower, hroot]
      cases fuel with
      | zero => rfl
      | succ fuel => rw [levelsAbove, if_neg (by simp)]

/-- **The levels that are built are the padded levels of the tree, up to the root.** -/
theorem merkleLevels_tower {leaves : List Bytes} (hne : leaves ≠ []) :
    ∃ d root, climb (nodeOf P) (d + 1) leaves = [root] ∧
      merkleLevels P leaves = tower P (d + 1) leaves := by
  obtain ⟨d, root, hroot, htower⟩ := levelsAbove_tower (P := P) _ hne le_rfl
  exact ⟨d, root, hroot, by rw [merkleLevels, if_neg hne, htower]⟩

theorem tower_ne_nil : ∀ (k : Nat) (level : List Bytes), tower P k level ≠ []
  | 0, _ => by simp [tower]
  | k + 1, _ => by simp [tower]

theorem tower_dropLast (k : Nat) (level : List Bytes) :
    (tower P (k + 1) level).dropLast
      = padEven level :: (tower P k (up (nodeOf P) level)).dropLast := by
  rw [tower, List.dropLast_cons_of_ne_nil (tower_ne_nil k _)]

@[simp] theorem tower_length : ∀ (k : Nat) (level : List Bytes), (tower P k level).length = k + 1
  | 0, _ => rfl
  | k + 1, level => by rw [tower, List.length_cons, tower_length k]

@[simp] theorem tower_getLast? : ∀ (k : Nat) (level : List Bytes),
    (tower P k level).getLast? = some (climb (nodeOf P) k level)
  | 0, _ => rfl
  | k + 1, level => by
    have hmore := tower_getLast? k (up (nodeOf P) level)
    rw [tower, List.getLast?_cons, hmore, climb]
    rfl

/-- What is joined when the levels are built. -/
theorem tower_joined : ∀ (k : Nat) (level : List Bytes),
    (tower P k level).dropLast.flatMap pairs = joined (nodeOf P) k level
  | 0, _ => rfl
  | k + 1, level => by
    rw [tower_dropLast, List.flatMap_cons, pairs_padEven, tower_joined k, joined]

/-- The siblings that are looked up are the partners on the way up. -/
theorem siblingPath_tower : ∀ (k : Nat) {level : List Bytes} {i : Nat} {path : List Bytes},
    i < level.length → partners (nodeOf P) k level i = some path →
    siblingPath (tower P k level).dropLast i = .ok (path.map hex)
  | 0, level, i, path, _, hpath => by
    obtain rfl := Option.some.inj hpath
    rfl
  | k + 1, level, i, path, hi, hpath => by
    obtain ⟨s, hs, habove⟩ := Option.bind_eq_some_iff.mp hpath
    obtain ⟨rest, hrest, heq⟩ := Option.bind_eq_some_iff.mp habove
    obtain rfl := Option.some.inj heq
    have hup : i / 2 < (up (nodeOf P) level).length := by
      rw [up_length]
      omega
    rw [tower_dropLast, siblingPath, padEven_getElem?_xor hi, hs]
    show (siblingPath _ (i / 2) >>= _) = _
    rw [siblingPath_tower k hup hrest]
    rfl

/-- Every sibling that is looked up is there. -/
theorem xor_lt_of_tower : ∀ (k : Nat) {level : List Bytes} {i : Nat}, i < level.length →
    ∀ j row, (tower P k level).dropLast[j]? = some row → i / 2 ^ j ^^^ 1 < row.length
  | 0, _, _, _, _, _, hrow => by simp [tower] at hrow
  | k + 1, level, i, hi, 0, row, hrow => by
    rw [tower_dropLast, List.getElem?_cons_zero] at hrow
    obtain rfl := Option.some.inj hrow
    obtain ⟨s, hs, -⟩ := pairs_partner (List.getElem?_eq_getElem hi)
    rw [← padEven_getElem?_xor hi] at hs
    rw [pow_zero, Nat.div_one]
    exact (List.getElem?_eq_some_iff.mp hs).1
  | k + 1, level, i, hi, j + 1, row, hrow => by
    rw [tower_dropLast, List.getElem?_cons_succ] at hrow
    have hup : i / 2 < (up (nodeOf P) level).length := by
      rw [up_length]
      omega
    rw [pow_succ', ← Nat.div_div_eq_div_mul]
    exact xor_lt_of_tower k hup j row hrow

/-- The verifier walks along the siblings. -/
theorem rootOnPath_eq : ∀ (path : List Str) (node : Bytes) (idx : Nat),
    rootOnPath P node idx path = (path.mapM fromHex).map (walk (nodeOf P) node idx)
  | [], node, idx => rfl
  | siblingHex :: path, node, idx => by
    rw [rootOnPath, List.mapM_cons]
    cases fromHex siblingHex with
    | none => rfl
    | some sibling =>
      have hside : (if idx % 2 = 0 then nodeDigest P node sibling else nodeDigest P sibling node)
          = nodeOf P (side idx node sibling) := by
        unfold side nodeOf
        split <;> rfl
      show rootOnPath P _ (idx / 2) path = _
      rw [hside, rootOnPath_eq path]
      cases path.mapM fromHex <;> rfl

theorem mapM_fromHex_hex : ∀ path : List Bytes, (path.map hex).mapM fromHex = some path
  | [] => rfl
  | s :: path => by
    rw [List.map_cons, List.mapM_cons, fromHex_hex, mapM_fromHex_hex path]
    rfl

/-- What the root of some records is. -/
theorem merkleRoot_eq_ok {recordHashes : List Str} {root : Str}
    (h : merkleRoot P recordHashes = .ok root) :
    ∃ leaves, recordHashes.mapM (leafDigest P) = .ok leaves ∧
      (recordHashes = [] ∧ root = emptyRoot ∨
        ∃ d node, climb (nodeOf P) (d + 1) leaves = [node] ∧
          merkleLevels P leaves = tower P (d + 1) leaves ∧ root = hex node) := by
  obtain ⟨leaves, hleaves, hroot⟩ := bind_eq_ok.mp h
  refine ⟨leaves, hleaves, ?_⟩
  have hlen := (mapM_eq_ok.mp hleaves).length_eq
  by_cases hne : leaves = []
  · subst hne
    exact .inl ⟨List.length_eq_zero_iff.mp hlen, (Except.ok.inj hroot).symm⟩
  · obtain ⟨d, node, hclimb, htower⟩ := merkleLevels_tower (P := P) hne
    rw [htower, tower_getLast?, hclimb] at hroot
    exact .inr ⟨d, node, hclimb, htower, (Except.ok.inj hroot).symm⟩

/-! ## A receipt that was built -/

/-- **Completeness.** The receipt of any record is built, with every sibling in range, and is
accepted against the root. -/
theorem verifyInclusion_inclusionProof {recordHashes : List Str} {root : Str} {i : Nat}
    (hroot : merkleRoot P recordHashes = .ok root) (hi : i < recordHashes.length) :
    ∃ proof leaves, inclusionProof P recordHashes i = .ok proof ∧
      verifyInclusion P proof (some root) = .ok true ∧
      recordHashes.mapM (leafDigest P) = .ok leaves ∧
      ∀ j level, (merkleLevels P leaves).dropLast[j]? = some level →
        i / 2 ^ j ^^^ 1 < level.length := by
  obtain ⟨leaves, hleaves, hempty | ⟨d, node, hclimb, htower, rfl⟩⟩ := merkleRoot_eq_ok hroot
  · rw [hempty.1] at hi
    simp at hi
  obtain ⟨hlen, hall⟩ := List.forall₂_iff_get.mp (mapM_eq_ok.mp hleaves)
  have hileaves : i < leaves.length := by omega
  have hleaf : leafDigest P recordHashes[i] = .ok leaves[i] := hall i hi hileaves
  obtain ⟨path, hpath, hpathlen, hwalk⟩ := walk_partners (d + 1)
    (List.getElem?_eq_getElem hileaves)
  have hne : recordHashes ≠ [] := List.length_pos_iff.mp (by omega)
  have hbuilt : inclusionProof P recordHashes i
      = .ok ⟨0, recordHashes[i], i, recordHashes.length, hex node, path.map hex⟩ := by
    have hrange : (0 : Int) ≤ i ∧ (i : Int).toNat < recordHashes.length := by omega
    rw [inclusionProof, if_neg hne, dif_pos hrange, hleaves]
    show (siblingPath (merkleLevels P leaves).dropLast i >>= _) = _
    rw [htower, siblingPath_tower (d + 1) hileaves hpath, List.getLastD_eq_getLast?,
      tower_getLast?, hclimb]
    rfl
  refine ⟨_, leaves, hbuilt, ?_, hleaves, ?_⟩
  · -- the walk ends in the only node of the last level
    have hend : walk (nodeOf P) leaves[i] i path = node := by
      have hle := length_le_of_climb hclimb
      rw [hclimb, Nat.div_eq_of_lt (by omega)] at hwalk
      simpa using hwalk.symm
    have hrange : (0 : Int) ≤ i ∧ (i : Int) < recordHashes.length := by omega
    rw [verifyInclusion, if_neg (by simpa using hrange), hleaf]
    simp only [bind, Except.bind, rootOnPath_eq, mapM_fromHex_hex, Option.map_some,
      Int.toNat_natCast, hend]
    simp
  · rw [htower]
    exact xor_lt_of_tower (d + 1) hileaves

/-- A hash into 32 bytes: the first one marks a digest, the others count the text. -/
def counting : Platform :=
  ⟨KeySort.insertion, fun b =>
    1 :: (List.range 31).map fun k =>
      UInt8.ofNat (b.foldl (fun acc x => (acc * 257 + x.toNat + 1) % 256 ^ 31) 0 / 256 ^ k)⟩

theorem counting_width (b : Bytes) : (counting.sha256 b).length = 32 := by simp [counting]

theorem counting_ne_emptyRoot (b : Bytes) : counting.hexdigest b ≠ emptyRoot := by
  intro h
  have hsecond := congrArg (·[1]?) h
  simp [counting, Platform.hexdigest, hex, emptyRoot, hexChar] at hsecond

/-- The receipt that is built, where one is. -/
def receiptOf (P : Platform) (recordHashes : List Str) (leafIndex : Int) : InclusionProof :=
  (inclusionProof P recordHashes leafIndex).toOption.getD ⟨0, [], 0, 0, [], []⟩

def threeRecords : List Str := [lit "a", lit "b", lit "c"]

def thirdReceipt : InclusionProof := receiptOf counting threeRecords 2

/-- The receipt of the last record of three, whose sibling is the padding. -/
theorem verifyInclusion_inclusionProof_three : ∃ proof leaves,
    inclusionProof counting threeRecords 2 = .ok proof ∧
      verifyInclusion counting proof (some thirdReceipt.root) = .ok true ∧
      threeRecords.mapM (leafDigest counting) = .ok leaves ∧
      ∀ j level, (merkleLevels counting leaves).dropLast[j]? = some level →
        2 / 2 ^ j ^^^ 1 < level.length :=
  verifyInclusion_inclusionProof (i := 2) (by decide +kernel) (by decide)

end

end Ledger
