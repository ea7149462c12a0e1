import Msb.Infra.Lines
import Msb.Rag.IndexState

/-!
# The source tree

`api/rag.py`: the manifest that is rebuilt from the files of the vault, chunk by chunk, and its
comparison with the manifest of a snapshot.

* `treeManifest` — the manifest of a tree
* `changedSources` — what differs between two manifests
-/

namespace Rag

open Py Ledger

/-! ## Files -/

/-- What is read where a file stands. A link is followed. -/
inductive SourceContent where
  | bytes (content : Bytes)
  | escapes
  | unreadable

/-- A file, with the directories from the root down to it. -/
structure SourceFile where
  directories : List Str
  name : Str
  content : SourceContent

/-- The root may be no directory, and a directory below it may be closed. -/
structure SourceTree where
  root : Str
  isDir : Bool
  walks : Bool
  files : List SourceFile

def excluded : List Str :=
  [lit "Claude-Conversations", lit "Claude-Projects", lit ".obsidian", lit ".git", lit "Backups"]

/-- `filename.endswith(suffix)` -/
def endsWith (name suffix : Str) : Bool := suffix.reverse.isPrefixOf name.reverse

def SourceFile.parts (f : SourceFile) : List Str := f.directories ++ [f.name]

/-- `relative.as_posix()` -/
def SourceFile.source (f : SourceFile) : Str := (lit "/").intercalate f.parts

/-- The paths that the walk collects, sorted. -/
def SourceTree.paths (t : SourceTree) : List SourceFile :=
  (t.files.filter fun f => (f.directories.all fun d => d ∉ excluded) && endsWith f.name
    (lit ".md")).mergeSort fun f g =>
    decide (f.parts ≤ g.parts)

/-! ## Chunks -/

/-- The character at the head of some bytes, with its length. -/
def charAt (b : Bytes) : Option (CodePoint × Nat) :=
  [1, 2, 3, 4].findSome? fun n =>
    match decode (b.take n) with
    | some [c] => if n ≤ b.length then some (c, n) else none
    | _ => none

/-- Decoding, with `k` bytes of a character still to be skipped. -/
def decodeAfter : Nat → Bytes → Str
  | _, [] => []
  | k + 1, _ :: bytes => decodeAfter k bytes
  | 0, byte :: bytes =>
    match charAt (byte :: bytes) with
    | some (c, n) => c :: decodeAfter (n - 1) bytes
    | none => decodeAfter 0 bytes

/-- `raw.decode("utf-8", errors="ignore")` -/
def decodeIgnore (b : Bytes) : Str := decodeAfter 0 b

/-- `_CHUNK_SIZE` -/
def chunkSize : Nat := 3000

/-- `_CHUNK_OVERLAP` -/
def chunkOverlap : Nat := 200

/-- The loop of `_split_vault_text`. Every turn goes on, so the length of the text is fuel enough.
-/
def splitFrom : Nat → Str → List Str
  | 0, _ => []
  | fuel + 1, text =>
    text.take chunkSize :: if text.length ≤ chunkSize then [] else splitFrom fuel
      (text.drop (chunkSize - chunkOverlap))

/-- `_split_vault_text` -/
def splitVaultText (text : Str) : List Str :=
  if strip text = [] then []
  else if text.length ≤ chunkSize then [text]
  else splitFrom text.length text

variable (P : Platform)

/-- The entry of a chunk. -/
def chunkEntry (source : Str) (raw : Bytes) (chunk : Str) (index : Nat) :
    Except PyError ManifestEntry := do
  let bytes ← encodeE chunk
  return ⟨source, index, P.hexdigest bytes, P.hexdigest raw⟩

/-- The entries of a file. -/
def fileEntries (root : Str) (f : SourceFile) : Except PyError (List ManifestEntry) :=
  match f.content with
  | .escapes => .error (.runtimeError (lit "source symlink escapes configured root: " ++ f.source))
  | .unreadable =>
    .error (.runtimeError (lit "could not verify source " ++ root ++ lit "/" ++ f.source))
  | .bytes raw =>
    (splitVaultText (decodeIgnore raw)).zipIdx.mapM fun (chunk, index) =>
      chunkEntry P f.source raw chunk index

/-- `_tree_manifest` -/
def treeManifest (t : SourceTree) : Except PyError (List ManifestEntry) := do
  raiseIf (t.isDir = false) (.runtimeError (lit "source root is unavailable: " ++ t.root))
  raiseIf (t.walks = false) (.runtimeError (lit "could not enumerate configured source tree"))
  let entries ← t.paths.mapM (fileEntries P t.root)
  return entries.flatten

/-! ## Comparing manifests -/

/-- `{(x["source"], x["chunk"]): (x["content_sha256"], x["source_sha256"]) for x in
entries}.get(key)` -/
def hashesAt (entries : List ManifestEntry) (key : Key) : Option (Str × Str) :=
  (entries.reverse.find? fun e => e.key = key).map fun e => (e.contentSha256, e.sourceSha256)

/-- The sources of the keys at which two manifests differ, sorted. -/
def changedSources (expected actual : List ManifestEntry) : List Str :=
  let keys := expected.map ManifestEntry.key ++ actual.map ManifestEntry.key
  (((keys.filter fun key => hashesAt expected key ≠ hashesAt actual key).map
    Prod.fst).dedup).mergeSort fun a b => decide (a ≤ b)

/-- Two manifests say the same. -/
def SameManifest (expected actual : List ManifestEntry) : Prop :=
  ∀ key, hashesAt expected key = hashesAt actual key

theorem hashesAt_eq_none {entries : List ManifestEntry} {key : Key}
    (h : key ∉ entries.map ManifestEntry.key) : hashesAt entries key = none := by
  unfold hashesAt
  rw [Option.map_eq_none_iff, List.find?_eq_none]
  intro e he hkey
  exact h (List.mem_map.mpr ⟨e, List.mem_reverse.mp he, of_decide_eq_true hkey⟩)

theorem changedSources_eq_nil {expected actual : List ManifestEntry} :
    changedSources expected actual = [] ↔ SameManifest expected actual := by
  have hnil : changedSources expected actual = [] ↔
      ∀ key ∈ expected.map ManifestEntry.key ++ actual.map ManifestEntry.key,
      hashesAt expected key = hashesAt actual key := by
    unfold changedSources
    rw [← List.length_eq_zero_iff, List.length_mergeSort, List.length_eq_zero_iff,
      List.dedup_eq_nil, List.map_eq_nil_iff, List.filter_eq_nil_iff]
    simp
  rw [hnil]
  constructor
  · intro h key
    by_cases hmem : key ∈ expected.map ManifestEntry.key ++ actual.map ManifestEntry.key
    · exact h key hmem
    · rw [List.mem_append, not_or] at hmem
      rw [hashesAt_eq_none hmem.1, hashesAt_eq_none hmem.2]
  · exact fun h key _ => h key

end Rag
