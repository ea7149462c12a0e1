import Msb.Ledger.Notary
import Msb.Vesta.Runtime

/-!
# The conversation envelope

`conversation/envelope.py`, as far as the ledger rests on it: the canonical text of a value, and the
ids of the two claims that an exchange is evidence for. The ids are the first digits of a hash of
canonical text.

Records and contracts are dicts of any shape, read with `.get`. What is no dict has no `get`.
-/

namespace Conversation

open Py Ledger

/-! ## Reading a dict -/

/-- What the modules ask of the language: `str(v)` and `repr(v)`. The `str` of a text is the text.
-/
structure Texts where
  str : PyVal → Str
  repr : PyVal → Str
  str_text : ∀ s, str (.str s) = s

/-- `v.get(key, default)` -/
def getOr (v : PyVal) (key : String) (default : PyVal) : Except PyError PyVal :=
  match v with
  | .dict items => .ok ((getItem items (lit key)).getD default)
  | _ => .error .attributeError

/-- `v.get(key)` -/
def get (v : PyVal) (key : String) : Except PyError PyVal := getOr v key .none

/-- `v or default` -/
def orElse (v default : PyVal) : PyVal := if truthy v then v else default

/-- `isinstance(v, dict)` -/
def isDict : PyVal → Bool
  | .dict _ => true
  | _ => false

/-- `isinstance(v, str)` -/
def isStr : PyVal → Bool
  | .str _ => true
  | _ => false

/-- `key in v`, for a dict. -/
def hasKey (v : PyVal) (key : String) : Bool :=
  match v with
  | .dict items => (getItem items (lit key)).isSome
  | _ => false

/-- A dict with the keys of the source. -/
abbrev object (items : List (String × PyVal)) : PyVal := Vesta.fields items

theorem codePoint_injective {a b : Char} (h : (Fin.ofNat 1114112 a.toNat) = Fin.ofNat _ b.toNat) :
    a = b := by
  have hlt (c : Char) : c.toNat < 1114112 := by
    rcases c.valid with h | h <;> simp only [Char.toNat] <;> omega
  have hval := congrArg Fin.val h
  simp only [Fin.val_ofNat, Nat.mod_eq_of_lt (hlt _)] at hval
  exact Char.toNat_inj.mp hval

theorem lit_injective : Function.Injective lit := by
  intro a b h
  have hinj : Function.Injective fun c : Char => (Fin.ofNat 1114112 c.toNat) :=
    fun _ _ => codePoint_injective
  exact String.toList_inj.mp (hinj.list_map h)

/-- `sep.join(...)` -/
def join (sep : String) (texts : List Str) : Str := (lit sep).intercalate texts

/-! ## Hashes -/

section

variable (P : Platform)

/-- `canonical_json` -/
def canonicalJson (v : PyVal) : Except PyError Str := dumps P.keySort true canonicalStyle v

/-- `_sha256` -/
def sha256Text (text : Str) : Except PyError Str := do
  let b ← encodeE text
  .ok (P.hexdigest b)

/-- `_sha256(canonical_json(v))[:12]` -/
def shortHash (v : PyVal) : Except PyError Str := do
  let text ← canonicalJson P v
  let digest ← sha256Text P text
  .ok (digest.take 12)

/-- `claim:ans:<hash>`; the sources are hashed in sorted order. -/
def claimIdForAns (query : Str) (sourceIds : List Str) (answerText : Str) : Except PyError Str := do
  let hash ← shortHash P (object [("query", .str query),
    ("source_ids", .list ((sourceIds.insertionSort (· ≤ ·)).map .str)),
    ("answer_text", .str answerText)])
  .ok (lit "claim:ans:" ++ hash)

/-- `claim:ok:query:<hash>` -/
def claimIdForQuery (query : Str) : Except PyError Str := do
  let hash ← shortHash P (object [("query", .str query)])
  .ok (lit "claim:ok:query:" ++ hash)

/-- `claim:ok:task:<task_id>` -/
def claimOkTask (taskId : Str) : Str := lit "claim:ok:task:" ++ taskId

/-- `claim:done:task:<hash>` -/
def claimDoneTask (taskId : Str) (expectedOutput predicates : PyVal) : Except PyError Str := do
  let hash ← shortHash P
    (object [("task_id", .str taskId), ("expected_output", orElse expectedOutput (.dict [])),
    ("predicates", orElse predicates (.list []))])
  .ok (lit "claim:done:task:" ++ hash)

end

end Conversation
