import Msb.Ledger.AuditChain

/-!
# The Merkle root

`merkle.py`: the levels of the tree over the record hashes, the leaf level first. Every level but
the last is padded to an even length with its last node.
-/

namespace Ledger

open Py

variable (P : Platform)

/-- `EMPTY_ROOT` -/
def emptyRoot : Str := List.replicate 64 48

/-- `_leaf_digest` -/
def leafDigest (recordHash : Str) : Except PyError Bytes := do
  let b ← encodeE recordHash
  .ok (P.sha256 (0 :: b))

/-- `_node_digest` -/
def nodeDigest (left right : Bytes) : Bytes := P.sha256 (1 :: (left ++ right))

/-- The parents of a level of even length. -/
def parents : List Bytes → List Bytes
  | left :: right :: level => nodeDigest P left right :: parents level
  | _ => []

/-- `level + [level[-1]]` where the length is odd. -/
def padEven (level : List Bytes) : List Bytes :=
  match level.getLast? with
  | some last => if level.length % 2 = 1 then level ++ [last] else level
  | none => level

/-- The next level: the root alone is not padded. -/
def nextLevel (level : List Bytes) : List Bytes :=
  let up := parents P level
  if 1 < up.length then padEven up else up

/-- The levels above `level`. A level halves, so its length is fuel enough. -/
def levelsAbove : Nat → List Bytes → List (List Bytes)
  | 0, _ => []
  | fuel + 1, level =>
    if 1 < level.length then nextLevel P level :: levelsAbove fuel (nextLevel P level) else []

/-- `_build_levels` on the leaf digests. -/
def merkleLevels (leaves : List Bytes) : List (List Bytes) :=
  if leaves = [] then []
  else padEven leaves :: levelsAbove P (padEven leaves).length (padEven leaves)

/-- `merkle_root` -/
def merkleRoot (recordHashes : List Str) : Except PyError Str := do
  let leaves ← recordHashes.mapM (leafDigest P)
  match (merkleLevels P leaves).getLast? with
  | none => .ok emptyRoot
  | some level => .ok (hex (level.headD []))

/-! ## The root is reached -/

section

variable {P}

theorem padEven_length (level : List Bytes) :
    (padEven level).length = level.length + level.length % 2 := by
  unfold padEven
  rcases List.eq_nil_or_concat level with rfl | ⟨init, last, rfl⟩
  · rfl
  · rw [List.concat_eq_append, List.getLast?_append, List.getLast?_singleton, Option.some_or]
    by_cases hodd : (init ++ [last]).length % 2 = 1
    · dsimp only
      rw [if_pos hodd, List.length_append, hodd]
      rfl
    · dsimp only
      rw [if_neg hodd]
      omega

end

end Ledger
