import Msb.Infra.FileTree
import Msb.Vesta.FileWriter

/-!
# Reversible writes

`FileWriter` of `node/filesystem.py`, over a tree of files with symbolic links. `Path.resolve` takes
`..` back from a regular file, where the operating system finds nothing; so a symbolic link can be
the target of a write by a path such as `file/../link`, and the write replaces it.

* `fileWriter_spec` — a write and a rollback change nothing outside of the root, and where a
  rollback restores the target
* `large_not_restored` — a file that is larger than the limit is replaced, and cannot be restored
-/

namespace Node

open Py Ledger Vesta

/-- The tree, and what was created, replaced or deleted so far. `touched` is a history. -/
structure Disk where
  tree : FileTree
  touched : List Path

/-! ## Calls that change the tree -/

namespace Disk

variable (links : Nat) (d : Disk)

/-- The entry at a physical path, changed. -/
def set (p : Path) (x : Option FileNode) : Except OsError Disk :=
  if h : d.tree.Leaf p then .ok ⟨d.tree.set p h x, d.touched ++ [p]⟩ else .error .isDirectory

/-- The temporary file, written. -/
def createFile (path : Path) (content : Bytes) : Except OsError Disk := do
  let p ← d.tree.place links path
  if d.tree.node p ≠ none then .error .exists else d.set p (some (.file content))

/-- `os.replace` of a regular file. -/
def replace (source target : Path) : Except OsError Disk := do
  let p ← d.tree.place links source
  let q ← d.tree.place links target
  match d.tree.node p with
  | some (.file content) =>
    let d ← d.set p none
    d.set q (some (.file content))
  | _ => .error .notFound

/-- `os.unlink` -/
def unlink (path : Path) : Except OsError Disk := do
  let p ← d.tree.place links path
  if d.tree.node p = none then .error .notFound else d.set p none

end Disk

/-! ## The writer -/

/-- The root is resolved. -/
structure FileWriter where
  root : Path
  maxBytes : Nat
  plain : ∀ c ∈ root, Plain c

/-- The links that the operating system follows in one call, and how many more `os.path.realpath`
does. -/
structure LinkLimits where
  links : Nat
  more : Nat

def osError : OsError → PyError
  | .notFound => .raised (lit "FileNotFoundError") []
  | .notDirectory => .raised (lit "NotADirectoryError") []
  | .isDirectory => .raised (lit "IsADirectoryError") []
  | .exists => .raised (lit "FileExistsError") []
  | .loop => .raised (lit "RuntimeError") []
  | .busy => .raised (lit "OSError") []

/-- `str(path.relative_to(root))` -/
def relativeText (p : Path) : Str := if p = [] then lit "." else joinPath p

namespace FileWriter

variable (P : Platform) (o : LinkLimits) (self : FileWriter)

def candidate (requested : Str) : Path :=
  if isAbsolute requested then splitPath requested else self.root ++ splitPath requested

/-- `path.resolve(strict=True)`, which must lie below the root. -/
def resolved (t : FileTree) (path : Path) (message : Str) : Except PyError Path :=
  match t.walk false (o.links + o.more) [] path with
  | .error .notFound => .error (capabilityViolation message)
  | .error e => .error (osError e)
  | .ok r => if self.root <+: r.1 then .ok r.1 else .error (capabilityViolation message)

/-- `_safe_target` -/
def safeTarget (t : FileTree) (requested : Str) : Except PyError Path :=
  if requested = [] ∨ 0 ∈ requested then .error (capabilityViolation (lit "invalid file path"))
  else
    let candidate := self.candidate requested
    match self.resolved o t candidate.dropLast
      (lit "file path outside capability scope or missing parent") with
    | .error e => .error e
    | .ok parent =>
      if t.pathExists o.links candidate || t.isSymlink o.links candidate then
        if t.isSymlink o.links candidate then .error
          (capabilityViolation (lit "symlink targets are not writable"))
        else
          match self.resolved o t candidate (lit "file path outside capability scope") with
          | .error e => .error e
          | .ok path =>
            if t.isFile o.links path then .ok path
            else .error (capabilityViolation (lit "target is not a regular file"))
      else .ok (parent ++ candidate.getLast?.toList)

/-- `before = path.read_bytes() if path.exists() else None` -/
def before (t : FileTree) (path : Path) : Except OsError (Option Bytes) :=
  if t.pathExists o.links path then (t.readBytes o.links path).map some else .ok none

/-- The temporary file, which replaces the target. `tmp` names it. -/
def commit (d : Disk) (tmp : Path → Str) (path : Path) (content : Bytes) :
    Except OsError Unit × Disk :=
  let temporary := path.dropLast ++ [tmp path.dropLast]
  match d.createFile o.links temporary content with
  | .error e => (.error e, d)
  | .ok d =>
    match d.replace o.links temporary path with
    | .error e => (.error e, (d.unlink o.links temporary).toOption.getD d)
    | .ok d => (.ok (), d)

/-- `write`, with a resolved target. -/
def writeTarget (d : Disk) (tmp : Path → Str) (path : Path) (content : Bytes)
    (expectedSha256 : Option Str) : Except PyError FileWriteReceipt × Disk :=
  match before o d.tree path with
  | .error e => (.error (osError e), d)
  | .ok before =>
    if expectedSha256 ≠ none ∧ before.map P.hexdigest ≠ expectedSha256 then
      (.error (capabilityViolation (lit "precondition hash does not match target")), d)
    else
      match commit o d tmp path content with
      | (.error e, d) => (.error (osError e), d)
      | (.ok (), d) =>
        match d.tree.readBytes o.links path with
        | .error e => (.error (osError e), d)
        | .ok observed =>
          if P.hexdigest observed ≠ P.hexdigest content then
            (.error (capabilityViolation (lit "postcondition hash does not match written content")),
              d)
          else
            (.ok ⟨relativeText (path.drop self.root.length), before.isSome, before.map P.hexdigest,
              P.hexdigest content, content.length, before⟩, d)

/-- `write` -/
def write (d : Disk) (tmp : Path → Str) (requested : Str) (content : Bytes)
    (expectedSha256 : Option Str) : Except PyError FileWriteReceipt × Disk :=
  if self.maxBytes < content.length then
    (.error (capabilityViolation (lit "write exceeds limit (" ++ (intLit self.maxBytes).text ++
      lit " bytes)")), d)
  else
    match self.safeTarget o d.tree requested with
    | .error e => (.error e, d)
    | .ok path => self.writeTarget P o d tmp path content expectedSha256

/-- `rollback`. `tmp` names the temporary file of the `write` in it. -/
def rollback (d : Disk) (tmp : Path → Str) (receipt : FileWriteReceipt) :
    Except PyError Rollback × Disk :=
  match self.safeTarget o d.tree receipt.path with
  | .error e => (.error e, d)
  | .ok path =>
    if receipt.existed then
      match receipt.before with
      | none => (.error (capabilityViolation (lit "rollback snapshot is missing")), d)
      | some before =>
        match self.write P o d tmp receipt.path before none with
        | (.error e, d) => (.error e, d)
        | (.ok _, d) =>
          match d.tree.readBytes o.links path with
          | .error e => (.error (osError e), d)
          | .ok restored =>
            (.ok ⟨some (P.hexdigest restored) = receipt.beforeSha256, receipt.path,
              receipt.beforeSha256⟩, d)
    else
      match (if d.tree.pathExists o.links path then d.unlink o.links path else .ok d) with
      | .error e => (.error (osError e), d)
      | .ok d => (.ok ⟨!d.tree.pathExists o.links path, receipt.path, receipt.beforeSha256⟩, d)

end FileWriter

/-! ## Containment -/

/-- An entry of a directory below the root. What is above a directory is a directory, so no link
leads there. -/
def Inside (root : Path) (t : FileTree) (p : Path) : Prop :=
  ∃ dir name, p = dir ++ [name] ∧ root <+: dir ∧ t.node dir = some .dir

/-- Only entries below the root were touched, no directory among them, and nothing else is changed.
-/
structure Contained (root : Path) (d d' : Disk) : Prop where
  dirs : ∀ p, d'.tree.node p = some .dir ↔ d.tree.node p = some .dir
  touched : ∃ new, d'.touched = d.touched ++ new ∧ (∀ p ∈ new, Inside root d.tree p) ∧
    ∀ q ∉ new, d'.tree.node q = d.tree.node q

theorem Contained.refl (root : Path) (d : Disk) : Contained root d d where
  dirs _ := Iff.rfl
  touched := ⟨[], (List.append_nil _).symm, nofun, fun _ _ => rfl⟩

theorem Contained.inside {root : Path} {d d' : Disk} (h : Contained root d d') {p : Path} :
    Inside root d'.tree p ↔ Inside root d.tree p := by
  unfold Inside
  simp only [h.dirs]

theorem Contained.trans {root : Path} {d₁ d₂ d₃ : Disk} (h : Contained root d₁ d₂)
    (h' : Contained root d₂ d₃) :
    Contained root d₁ d₃ where
  dirs p := (h'.dirs p).trans (h.dirs p)
  touched := by
    obtain ⟨new, hnew, hin, hsame⟩ := h.touched
    obtain ⟨new', hnew', hin', hsame'⟩ := h'.touched
    refine ⟨new ++ new', by rw [hnew', hnew, List.append_assoc], fun p hp => ?_, fun q hq => ?_⟩
    · rcases List.mem_append.mp hp with hp | hp
      · exact hin p hp
      · exact h.inside.mp (hin' p hp)
    · rw [hsame' q fun hmem => hq (List.mem_append_right _ hmem), hsame q fun hmem =>
        hq (List.mem_append_left _ hmem)]

namespace Disk

variable {links : Nat} {d d' : Disk} {root dir p : Path} {name : Str} {x : Option FileNode}
  {content : Bytes}

theorem set_eq_ok :
    d.set p x = .ok d' ↔ ∃ h : d.tree.Leaf p, d' = ⟨d.tree.set p h x, d.touched ++ [p]⟩ := by
  unfold Disk.set
  split
  · next h => exact ⟨fun heq => ⟨h, (Except.ok.inj heq).symm⟩, fun ⟨_, heq⟩ => heq ▸ rfl⟩
  · next h => exact ⟨nofun, fun ⟨h', _⟩ => absurd h' h⟩

theorem set_node (h : d.set p x = .ok d') (q : Path) :
    d'.tree.node q = if q = p then x else d.tree.node q := by
  obtain ⟨hleaf, rfl⟩ := set_eq_ok.mp h
  exact FileTree.set_node hleaf x q

theorem set_contained (h : d.set p x = .ok d') (hx : x ≠ some .dir) (hin : Inside root d.tree p) :
    Contained root d d' := by
  have hnode := set_node h
  obtain ⟨hleaf, rfl⟩ := set_eq_ok.mp h
  refine ⟨fun q => ?_, [p], rfl, fun q hq => ?_, fun q hq => ?_⟩
  · rw [hnode]
    by_cases hq : q = p
    · rw [if_pos hq, hq]
      exact iff_of_false hx hleaf.notDir
    · rw [if_neg hq]
  · rwa [List.mem_singleton.mp hq]
  · rw [hnode, if_neg fun heq => hq (List.mem_singleton.mpr heq)]

/-- The temporary file is new. -/
theorem createFile_eq_ok (hsolid : d.tree.Solid dir)
    (h : d.createFile links (dir ++ [name]) content = .ok d') :
    d.tree.node dir = some .dir ∧ d.tree.node (dir ++ [name]) = none ∧
      d.set (dir ++ [name]) (some (.file content)) = .ok d' := by
  obtain ⟨p, hp, h⟩ := bind_eq_ok.mp h
  obtain ⟨hdir, rfl⟩ := FileTree.place_snoc_eq_ok hsolid hp
  split at h
  · cases h
  next hnone => exact ⟨hdir, not_not.mp hnone, h⟩

theorem createFile_contained (hsolid : d.tree.Solid dir) (hroot : root <+: dir)
    (h : d.createFile links (dir ++ [name]) content = .ok d') : Contained root d d' := by
  obtain ⟨hdir, -, hset⟩ := createFile_eq_ok hsolid h
  exact set_contained hset nofun ⟨dir, name, rfl, hroot, hdir⟩

theorem replace_eq_ok {a b : Str} (hsolid : d.tree.Solid dir)
    (h : d.replace links (dir ++ [a]) (dir ++ [b]) = .ok d') :
    d.tree.node dir = some .dir ∧ ∃ content d₁, d.tree.node (dir ++ [a]) = some (.file content) ∧
      d.set (dir ++ [a]) none = .ok d₁ ∧ d₁.set (dir ++ [b]) (some (.file content)) = .ok d' := by
  obtain ⟨p, hp, h⟩ := bind_eq_ok.mp h
  obtain ⟨q, hq, h⟩ := bind_eq_ok.mp h
  obtain ⟨hdir, rfl⟩ := FileTree.place_snoc_eq_ok hsolid hp
  obtain ⟨-, rfl⟩ := FileTree.place_snoc_eq_ok hsolid hq
  split at h
  · next content hfile =>
    obtain ⟨d₁, hd₁, hd'⟩ := bind_eq_ok.mp h
    exact ⟨hdir, content, d₁, hfile, hd₁, hd'⟩
  · cases h

theorem replace_contained {a b : Str} (hsolid : d.tree.Solid dir) (hroot : root <+: dir)
    (h : d.replace links (dir ++ [a]) (dir ++ [b]) = .ok d') : Contained root d d' := by
  obtain ⟨hdir, content, d₁, -, hd₁, hd'⟩ := replace_eq_ok hsolid h
  have hfirst : Contained root d d₁ := set_contained hd₁ nofun ⟨dir, a, rfl, hroot, hdir⟩
  exact hfirst.trans (set_contained hd' nofun (hfirst.inside.mpr ⟨dir, b, rfl, hroot, hdir⟩))

theorem unlink_eq_ok (hsolid : d.tree.Solid dir) (h : d.unlink links (dir ++ [name]) = .ok d') :
    d.tree.node dir = some .dir ∧ d.set (dir ++ [name]) none = .ok d' := by
  obtain ⟨p, hp, h⟩ := bind_eq_ok.mp h
  obtain ⟨hdir, rfl⟩ := FileTree.place_snoc_eq_ok hsolid hp
  split at h
  · cases h
  · exact ⟨hdir, h⟩

theorem unlink_contained (hsolid : d.tree.Solid dir) (hroot : root <+: dir)
    (h : d.unlink links (dir ++ [name]) = .ok d') : Contained root d d' := by
  obtain ⟨hdir, hset⟩ := unlink_eq_ok hsolid h
  exact set_contained hset nofun ⟨dir, name, rfl, hroot, hdir⟩

end Disk

namespace FileWriter

variable {P : Platform} {o : LinkLimits} {self : FileWriter} {t : FileTree} {d d' : Disk}
  {tmp : Path → Str}
variable {dir : Path} {name : Str} {content : Bytes}

theorem resolved_eq_ok {path p : Path} {message : Str}
    (h : self.resolved o t path message = .ok p) :
    ∃ k, t.walk false (o.links + o.more) [] path = .ok (p, k) ∧ self.root <+: p := by
  unfold resolved at h
  split at h
  · cases h
  · cases h
  next r hr =>
  split at h
  · next hroot =>
    obtain rfl := Except.ok.inj h
    exact ⟨r.2, hr, hroot⟩
  · cases h

/-- Where the operating system finds the candidate, and no link there, the target is the entry of
that name in the parent. -/
theorem resolved_snoc {cs p parent : Path} {k k' : Nat}
    (hexists : t.pathExists o.links (cs ++ [name]) = true)
    (hlink : t.isSymlink o.links (cs ++ [name]) = false)
    (hparent : t.walk false (o.links + o.more) [] cs = .ok (parent, k))
    (hpath : t.walk false (o.links + o.more) [] (cs ++ [name]) = .ok (p, k'))
      (hfile : t.isFile o.links p = true) :
    p = parent ++ [name] := by
  unfold FileTree.pathExists at hexists
  rw [FileTree.walk_append] at hexists hpath
  rw [hparent] at hpath
  cases hcs : t.walk true o.links [] cs with
  | error e =>
    rw [hcs] at hexists
    cases hexists
  | ok r =>
    -- the two walks to the parent agree
    obtain ⟨dir, j⟩ := r
    have hsame := t.walk_strict o.more o.links [] cs _ hcs
    rw [hparent] at hsame
    obtain ⟨rfl, rfl⟩ := Prod.mk.inj (Except.ok.inj hsame)
    rw [hcs] at hexists
    change (t.walk true j parent [name]).isOk = true at hexists
    change t.walk false (j + o.more) parent [name] = .ok (p, k') at hpath
    have hsolid : t.Solid parent := t.walk_solid true o.links [] cs t.solid_root _ hcs
    have hfree : ¬ t.Blocked false parent := fun hb => Bool.false_ne_true hb.1
    by_cases hb : t.Blocked true parent
    · rw [FileTree.walk_blocked hb] at hexists
      cases hexists
    have hdir : t.node parent = some .dir := not_not.mp fun hnot => hb ⟨rfl, hnot⟩
    by_cases hname : name = lit ".."
    · -- what is above the parent is a directory
      subst hname
      rw [FileTree.walk_dotDot hfree, FileTree.walk_nil] at hpath
      obtain ⟨rfl, -⟩ := Prod.mk.inj (Except.ok.inj hpath)
      obtain ⟨content, hcontent⟩ := (FileTree.isFile_of_solid hsolid.dropLast).mp hfile
      rcases List.eq_nil_or_concat' parent with rfl | ⟨q, last, rfl⟩
      · rw [List.dropLast_nil, t.root] at hcontent
        cases hcontent
      · rw [List.dropLast_concat, t.parent q last (by rw [hdir]; exact Option.some_ne_none _)]
          at hcontent
        cases hcontent
    · cases hnode : t.node (parent ++ [name]) with
      | none =>
        rw [FileTree.walk_missing hb hname hnode] at hexists
        cases hexists
      | some x =>
        have hx : ∀ target, x ≠ .link target := by
          rintro target rfl
          refine Bool.eq_false_iff.mp hlink ?_
          unfold FileTree.isSymlink
          rw [FileTree.place_append hcs, if_neg (not_not.mpr hdir), if_neg hname]
          show (t.node (parent ++ [name])).any FileNode.isLink = true
          rw [hnode]
          rfl
        rw [FileTree.walk_entry hfree hname hnode hx, FileTree.walk_nil] at hpath
        exact (Prod.mk.inj (Except.ok.inj hpath)).1.symm

/-- **The target is an entry of a physical directory below the root.** -/
theorem safeTarget_snoc {requested : Str} {path : Path}
    (h : self.safeTarget o t requested = .ok path) :
    ∃ dir name, path = dir ++ [name] ∧ self.root <+: dir ∧ t.Solid dir := by
  unfold safeTarget at h
  split at h
  · cases h
  revert h
  generalize self.candidate requested = candidate
  intro h
  cases hparent : self.resolved o t candidate.dropLast
    (lit "file path outside capability scope or missing parent") with
  | error e =>
    simp only [hparent] at h
    cases h
  | ok parent =>
    simp only [hparent] at h
    obtain ⟨k, hwalk, hroot⟩ := resolved_eq_ok hparent
    have hsolid : t.Solid parent := t.walk_solid false _ [] _ t.solid_root _ hwalk
    rcases List.eq_nil_or_concat' candidate with rfl | ⟨cs, name, rfl⟩
    · -- the root of the file system is no file
      have hexists : t.pathExists o.links [] = true := FileTree.pathExists_of_solid t.solid_root
      rw [hexists, Bool.true_or, if_pos rfl] at h
      split at h
      · cases h
      cases hres : self.resolved o t [] (lit "file path outside capability scope") with
      | error e =>
        simp only [hres] at h
        cases h
      | ok p =>
        simp only [hres] at h
        split at h
        · next hfile =>
          obtain ⟨k', hwalk', -⟩ := resolved_eq_ok hres
          rw [FileTree.walk_nil] at hwalk'
          obtain ⟨rfl, -⟩ := Prod.mk.inj (Except.ok.inj hwalk')
          obtain ⟨content, hcontent⟩ := (FileTree.isFile_of_solid t.solid_root).mp hfile
          rw [t.root] at hcontent
          cases hcontent
        · cases h
    · rw [List.dropLast_concat] at hwalk
      refine ⟨parent, name, ?_, hroot, hsolid⟩
      -- an existing file is no link, and a new one is named by the last component
      split at h
      · next hexists =>
        split at h
        · cases h
        next hlink =>
        have hlink := Bool.eq_false_iff.mpr hlink
        rw [hlink, Bool.or_false] at hexists
        cases hres : self.resolved o t (cs ++ [name]) (lit "file path outside capability scope")
          with
        | error e =>
          simp only [hres] at h
          cases h
        | ok p =>
          simp only [hres] at h
          split at h
          · next hfile =>
            obtain rfl := Except.ok.inj h
            obtain ⟨k', hwalk', -⟩ := resolved_eq_ok hres
            exact resolved_snoc hexists hlink hwalk hwalk' hfile
          · cases h
      · obtain rfl := Except.ok.inj h
        rw [List.getLast?_append_of_ne_nil cs (List.cons_ne_nil name [])]
        rfl

/-! ## One write -/

theorem commit_contained {root : Path} (hsolid : d.tree.Solid dir) (hroot : root <+: dir) :
    Contained root d (commit o d tmp (dir ++ [name]) content).2 := by
  unfold commit
  rw [List.dropLast_concat]
  cases hcreate : d.createFile o.links (dir ++ [tmp dir]) content with
  | error e =>
    simp only [hcreate]
    exact .refl root d
  | ok d₁ =>
    simp only [hcreate]
    have hfirst := Disk.createFile_contained hsolid hroot hcreate
    have hsolid₁ : d₁.tree.Solid dir :=
      FileTree.solid_of_dir ((hfirst.dirs dir).mpr (Disk.createFile_eq_ok hsolid hcreate).1)
    cases hreplace : d₁.replace o.links (dir ++ [tmp dir]) (dir ++ [name]) with
    | ok d₂ =>
      simp only
      exact hfirst.trans (Disk.replace_contained hsolid₁ hroot hreplace)
    | error e =>
      simp only
      cases hunlink : d₁.unlink o.links (dir ++ [tmp dir]) with
      | error e => exact hfirst
      | ok d₂ => exact hfirst.trans (Disk.unlink_contained hsolid₁ hroot hunlink)

/-- **What a write leaves**: the target has the content, and nothing else is changed. -/
theorem commit_eq_ok (hsolid : d.tree.Solid dir)
    (h : commit o d tmp (dir ++ [name]) content = (.ok (), d')) : d.tree.Leaf (dir ++ [name]) ∧
      ∀ q, d'.tree.node q = if q = dir ++ [name] then some (.file content) else d.tree.node q := by
  unfold commit at h
  rw [List.dropLast_concat] at h
  cases hcreate : d.createFile o.links (dir ++ [tmp dir]) content with
  | error e =>
    simp only [hcreate] at h
    cases h
  | ok d₁ =>
    simp only [hcreate] at h
    obtain ⟨hdir, hnone, hset⟩ := Disk.createFile_eq_ok hsolid hcreate
    have hnode₁ := Disk.set_node hset
    have hne : dir ≠ dir ++ [tmp dir] := fun heq => by simpa using congrArg List.length heq
    have hdir₁ : d₁.tree.node dir = some .dir := by rw [hnode₁, if_neg hne, hdir]
    cases hreplace : d₁.replace o.links (dir ++ [tmp dir]) (dir ++ [name]) with
    | error e =>
      simp only [hreplace] at h
      cases h
    | ok d₂ =>
      simp only [hreplace] at h
      obtain rfl := (Prod.mk.inj h).2
      obtain ⟨-, content', d₃, hcontent, hd₃, hd₂⟩ :=
        Disk.replace_eq_ok (FileTree.solid_of_dir hdir₁) hreplace
      rw [hnode₁, if_pos rfl] at hcontent
      obtain rfl := FileNode.file.inj (Option.some.inj hcontent)
      have hnode₃ := Disk.set_node hd₃
      have hnode₂ := Disk.set_node hd₂
      -- the temporary file is gone
      have hback : ∀ q, d₃.tree.node q = d.tree.node q := by
        intro q
        rw [hnode₃, hnode₁]
        by_cases hq : q = dir ++ [tmp dir]
        · rw [if_pos hq, hq, hnone]
        · rw [if_neg hq, if_neg hq]
      obtain ⟨hleaf, -⟩ := Disk.set_eq_ok.mp hd₂
      obtain ⟨hd, hplain, hnot⟩ := FileTree.leaf_snoc.mp hleaf
      rw [hback] at hd hnot
      refine ⟨FileTree.leaf_snoc.mpr ⟨hd, hplain, hnot⟩, fun q => ?_⟩
      rw [hnode₂, hback]

/-- `tempfile` finds a name that is free. -/
def Fresh (t : FileTree) (tmp : Path → Str) : Prop :=
  ∀ dir, t.node dir = some .dir → t.node (dir ++ [tmp dir]) = none ∧ Plain (tmp dir)

theorem commit_run (hleaf : d.tree.Leaf (dir ++ [name])) (hfresh : Fresh d.tree tmp)
    (content : Bytes) : ∃ d', commit o d tmp (dir ++ [name]) content = (.ok (), d') := by
  obtain ⟨hdir, hplain, hnot⟩ := FileTree.leaf_snoc.mp hleaf
  obtain ⟨hnone, htmp⟩ := hfresh dir hdir
  have hleafTmp : d.tree.Leaf (dir ++ [tmp dir]) :=
    FileTree.leaf_snoc.mpr ⟨hdir, htmp, by rw [hnone]; nofun⟩
  obtain ⟨d₁, hd₁⟩ : ∃ d₁, d.set (dir ++ [tmp dir]) (some (.file content)) = .ok d₁ :=
    ⟨_, Disk.set_eq_ok.mpr ⟨hleafTmp, rfl⟩⟩
  have hnode₁ := Disk.set_node hd₁
  have hne : dir ≠ dir ++ [tmp dir] := fun heq => by simpa using congrArg List.length heq
  have hdir₁ : d₁.tree.node dir = some .dir := by rw [hnode₁, if_neg hne, hdir]
  have hfile₁ : d₁.tree.node (dir ++ [tmp dir]) = some (.file content) := by rw [hnode₁, if_pos rfl]
  have hcreate : d.createFile o.links (dir ++ [tmp dir]) content = .ok d₁ := by
    rw [Disk.createFile, FileTree.place_entry hdir htmp]
    exact (if_neg (not_not.mpr hnone)).trans hd₁
  -- the temporary file is taken away, and the target is what it was
  obtain ⟨d₂, hd₂⟩ : ∃ d₂, d₁.set (dir ++ [tmp dir]) none = .ok d₂ :=
    ⟨_, Disk.set_eq_ok.mpr ⟨FileTree.leaf_snoc.mpr ⟨hdir₁, htmp, by rw [hfile₁]; nofun⟩, rfl⟩⟩
  have hback : ∀ q, d₂.tree.node q = d.tree.node q := by
    intro q
    rw [Disk.set_node hd₂, hnode₁]
    by_cases hq : q = dir ++ [tmp dir]
    · rw [if_pos hq, hq, hnone]
    · rw [if_neg hq, if_neg hq]
  obtain ⟨d₃, hd₃⟩ : ∃ d₃, d₂.set (dir ++ [name]) (some (.file content)) = .ok d₃ := by
    refine ⟨_, Disk.set_eq_ok.mpr ⟨FileTree.leaf_snoc.mpr ⟨?_, hplain, ?_⟩, rfl⟩⟩
    · rw [hback, hdir]
    · rwa [hback]
  have hreplace : d₁.replace o.links (dir ++ [tmp dir]) (dir ++ [name]) = .ok d₃ := by
    rw [Disk.replace, FileTree.place_entry hdir₁ htmp, FileTree.place_entry hdir₁ hplain]
    show (match d₁.tree.node (dir ++ [tmp dir]) with
      | some (.file content) =>
        (d₁.set (dir ++ [tmp dir]) none).bind fun d => d.set (dir ++ [name]) (some (.file content))
      | _ => .error .notFound) = _
    rw [hfile₁]
    show (d₁.set (dir ++ [tmp dir]) none).bind
      (fun d => d.set (dir ++ [name]) (some (.file content))) = _
    rw [hd₂]
    exact hd₃
  refine ⟨d₃, ?_⟩
  unfold commit
  rw [List.dropLast_concat]
  simp only [hcreate, hreplace]

theorem writeTarget_contained {expectedSha256 : Option Str} (hsolid : d.tree.Solid dir)
    (hroot : self.root <+: dir) :
    Contained self.root d
    (self.writeTarget P o d tmp (dir ++ [name]) content expectedSha256).2 := by
  have hcommit : Contained self.root d (commit o d tmp (dir ++ [name]) content).2 :=
    commit_contained hsolid hroot
  unfold writeTarget
  cases before o d.tree (dir ++ [name]) with
  | error e => exact .refl _ d
  | ok before =>
    simp only
    split
    · exact .refl _ d
    · revert hcommit
      obtain ⟨out, d₁⟩ := commit o d tmp (dir ++ [name]) content
      intro hcommit
      cases out with
      | error e => exact hcommit
      | ok u =>
        simp only
        split
        · exact hcommit
        · split <;> exact hcommit

/-- **A write is contained**, whatever it returns. -/
theorem write_contained (d : Disk) (tmp : Path → Str) (requested : Str) (content : Bytes)
    (expectedSha256 : Option Str) :
    Contained self.root d (self.write P o d tmp requested content expectedSha256).2 := by
  unfold write
  split
  · exact .refl _ d
  · cases htarget : self.safeTarget o d.tree requested with
    | error e => exact .refl _ d
    | ok path =>
      obtain ⟨dir, name, rfl, hroot, hsolid⟩ := safeTarget_snoc htarget
      exact writeTarget_contained hsolid hroot

/-- **A rollback is contained**, for any receipt. -/
theorem rollback_contained (d : Disk) (tmp : Path → Str) (receipt : FileWriteReceipt) :
    Contained self.root d (self.rollback P o d tmp receipt).2 := by
  unfold rollback
  cases htarget : self.safeTarget o d.tree receipt.path with
  | error e => exact .refl _ d
  | ok path =>
    obtain ⟨dir, name, rfl, hroot, hsolid⟩ := safeTarget_snoc htarget
    simp only
    split
    · cases receipt.before with
      | none => exact .refl _ d
      | some before =>
        simp only
        have hwrite : Contained self.root d (self.write P o d tmp receipt.path before none).2 :=
          write_contained d tmp receipt.path before none
        revert hwrite
        obtain ⟨out, d₁⟩ := self.write P o d tmp receipt.path before none
        intro hwrite
        cases out with
        | error e => exact hwrite
        | ok done =>
          simp only
          split <;> exact hwrite
    · split
      · exact .refl _ d
      next d₁ hd₁ =>
      split at hd₁
      · exact Disk.unlink_contained hsolid hroot hd₁
      · obtain rfl := Except.ok.inj hd₁
        exact .refl _ d

/-! ## Write and rollback -/

variable {requested : Str} {expectedSha256 : Option Str} {receipt : FileWriteReceipt}
  {previous : Option Bytes}

/-- The receipt of a write over `previous`. -/
def receiptOf (P : Platform) (self : FileWriter) (path : Path) (content : Bytes)
    (previous : Option Bytes) : FileWriteReceipt :=
  ⟨relativeText (path.drop self.root.length), previous.isSome, previous.map P.hexdigest,
    P.hexdigest content, content.length, previous⟩

theorem write_eq_ok
    (h : self.write P o d tmp requested content expectedSha256 = (.ok receipt, d')) :
    ∃ dir name previous, self.safeTarget o d.tree requested = .ok (dir ++ [name]) ∧
    self.root <+: dir ∧
      d.tree.Leaf (dir ++ [name]) ∧ before o d.tree (dir ++ [name]) = .ok previous ∧
      receipt = receiptOf P self (dir ++ [name]) content previous ∧ content.length ≤ self.maxBytes ∧
      ∀ q, d'.tree.node q = if q = dir ++ [name] then some (.file content) else d.tree.node q := by
  unfold write at h
  split at h
  · cases h
  next hsize =>
  cases htarget : self.safeTarget o d.tree requested with
  | error e =>
    simp only [htarget] at h
    cases h
  | ok path =>
    simp only [htarget] at h
    obtain ⟨dir, name, rfl, hroot, hsolid⟩ := safeTarget_snoc htarget
    unfold writeTarget at h
    split at h
    · cases h
    next previous hbefore =>
    split at h
    · cases h
    split at h
    · cases h
    next d₁ hcommit =>
    obtain ⟨hleaf, hnode⟩ := commit_eq_ok hsolid hcommit
    have hread : d₁.tree.readBytes o.links (dir ++ [name]) = .ok content :=
      FileTree.readBytes_of_file (by rw [hnode, if_pos rfl])
    simp only [hread, ne_eq, not_true_eq_false, if_false] at h
    obtain ⟨hreceipt, rfl⟩ := Prod.mk.inj h
    exact ⟨dir, name, previous, rfl, hroot, hleaf, hbefore, (Except.ok.inj hreceipt).symm,
      not_lt.mp hsize, hnode⟩

theorem write_run (htarget : self.safeTarget o d.tree requested = .ok (dir ++ [name]))
    (hleaf : d.tree.Leaf (dir ++ [name]))
    (hbefore : before o d.tree (dir ++ [name]) = .ok previous) (hfresh : Fresh d.tree tmp)
    (hsize : content.length ≤ self.maxBytes) :
    ∃ receipt d', self.write P o d tmp requested content none = (.ok receipt, d') := by
  obtain ⟨d₁, hcommit⟩ : ∃ d₁, commit o d tmp (dir ++ [name]) content = (.ok (), d₁) :=
    commit_run hleaf hfresh content
  have hsolid : d.tree.Solid dir := FileTree.solid_of_dir (FileTree.leaf_snoc.mp hleaf).1
  have hread : d₁.tree.readBytes o.links (dir ++ [name]) = .ok content :=
    FileTree.readBytes_of_file (by rw [(commit_eq_ok hsolid hcommit).2, if_pos rfl])
  unfold write
  rw [if_neg (by omega), htarget]
  simp only [writeTarget, hbefore, hcommit, hread, ne_eq, not_true_eq_false, false_and, if_false]
  exact ⟨_, _, rfl⟩

/-- A file below the root is a target by its relative path. -/
theorem safeTarget_file {old : Bytes} (hroot : self.root <+: dir)
    (hfile : t.node (dir ++ [name]) = some (.file old)) :
    self.safeTarget o t (relativeText ((dir ++ [name]).drop self.root.length)) =
    .ok (dir ++ [name]) := by
  have hsome : t.node (dir ++ [name]) ≠ none := by rw [hfile]; exact Option.some_ne_none _
  have hdir : t.node dir = some .dir := t.parent dir name hsome
  have hsolid : t.Solid (dir ++ [name]) := ⟨_, hfile, fun _ => nofun⟩
  obtain ⟨sub, rfl⟩ := hroot
  have hdrop : (self.root ++ sub ++ [name]).drop self.root.length = sub ++ [name] := by
    rw [List.append_assoc, List.drop_left]
  have hplain : ∀ c ∈ sub ++ [name], Plain c := fun c hc =>
    FileTree.plain_of_mem hsome c (by rw [List.append_assoc]; exact List.mem_append_right _ hc)
  have hcandidate : self.candidate (joinPath (sub ++ [name])) = self.root ++ sub ++ [name] := by
    rw [candidate, not_isAbsolute_joinPath hplain, splitPath_joinPath hplain, List.append_assoc]
    rfl
  have hresolved : ∀ {p : Path} {message : Str}, t.Solid p → self.root <+: p →
      self.resolved o t p message = .ok p := by
    intro p message hp hprefix
    unfold resolved
    rw [FileTree.walk_physical false _ (by simpa using hp)]
    exact if_pos hprefix
  have hparent : ∀ {message : Str}, self.resolved o t (self.root ++ sub) message =
      .ok (self.root ++ sub) :=
    hresolved (FileTree.solid_of_dir hdir) (List.prefix_append _ _)
  have htarget : ∀ {message : Str}, self.resolved o t (self.root ++ sub ++ [name]) message =
      .ok (self.root ++ sub ++ [name]) :=
    hresolved hsolid (by rw [List.append_assoc]; exact List.prefix_append _ _)
  have hlink : t.isSymlink o.links (self.root ++ sub ++ [name]) = false := by
    refine Bool.eq_false_iff.mpr fun htrue => ?_
    obtain ⟨target, hlink⟩ := (FileTree.isSymlink_entry hdir (t.plain _ _ hsome)).mp htrue
    rw [hfile] at hlink
    cases hlink
  have hisFile : t.isFile o.links (self.root ++ sub ++ [name]) = true :=
    (FileTree.isFile_of_solid hsolid).mpr ⟨old, hfile⟩
  rw [hdrop, relativeText, if_neg (by simp), safeTarget,
    if_neg (not_or.mpr ⟨joinPath_ne_nil hplain (by simp), nul_notMem_joinPath hplain⟩)]
  simp only [hcandidate, List.dropLast_concat, hparent, hlink, FileTree.pathExists_of_solid hsolid,
    Bool.or_false, if_true, htarget, hisFile]
  rfl

/-- The rollback can restore the target: it is no symbolic link, and what it holds is within the
limit. -/
def Restorable (o : LinkLimits) (self : FileWriter) (t : FileTree) (requested : Str) : Prop :=
  ∀ path, self.safeTarget o t requested = .ok path →
    match t.node path with
    | none => True
    | some (.file old) => old.length ≤ self.maxBytes
    | some (.link _) | some .dir => False

/-- What a rollback has left at the target is a file or nothing. -/
theorem rollback_target {undone : Rollback} {old : Bytes} (hroot : self.root <+: dir)
    (hfile : d.tree.node (dir ++ [name]) = some (.file old))
    (hpath : receipt.path = relativeText ((dir ++ [name]).drop self.root.length))
    (h : self.rollback P o d tmp receipt = (.ok undone, d')) :
    (∃ before, receipt.before = some before ∧ before.length ≤ self.maxBytes ∧
      d'.tree.node (dir ++ [name]) = some (.file before)) ∨
    (receipt.existed = false ∧ d'.tree.node (dir ++ [name]) = none) := by
  have htarget : self.safeTarget o d.tree receipt.path = .ok (dir ++ [name]) := by
    rw [hpath, safeTarget_file hroot hfile]
  unfold rollback at h
  rw [htarget] at h
  simp only at h
  split at h
  · split at h
    · cases h
    next before hbefore =>
    split at h
    · cases h
    next done d₁ hwrite =>
    obtain ⟨dir', name', previous, htarget', -, -, -, -, hsize, hnode⟩ := write_eq_ok hwrite
    rw [htarget] at htarget'
    rw [← Except.ok.inj htarget'] at hnode
    split at h
    · cases h
    · obtain ⟨-, rfl⟩ := Prod.mk.inj h
      exact .inl ⟨before, hbefore, hsize, by rw [hnode, if_pos rfl]⟩
  next hexisted =>
  refine .inr ⟨Bool.eq_false_iff.mpr hexisted, ?_⟩
  have hsolid : d.tree.Solid (dir ++ [name]) := ⟨_, hfile, fun _ => nofun⟩
  have hdir : d.tree.node dir = some .dir :=
    d.tree.parent dir name (by rw [hfile]; exact Option.some_ne_none _)
  rw [FileTree.pathExists_of_solid hsolid, if_pos rfl] at h
  split at h
  · cases h
  next d₁ hunlink =>
  obtain ⟨-, rfl⟩ := Prod.mk.inj h
  obtain ⟨-, hset⟩ := Disk.unlink_eq_ok (FileTree.solid_of_dir hdir) hunlink
  rw [Disk.set_node hset, if_pos rfl]

/-- The previous content, where the target was a file. -/
theorem before_file {p : Path} {old : Bytes} (h : t.node p = some (.file old)) :
    before o t p = .ok (some old) := by
  rw [before, FileTree.pathExists_of_solid ⟨_, h, fun _ => nofun⟩, FileTree.readBytes_of_file h]
  rfl

theorem before_none (hdir : t.node dir = some .dir) (hname : Plain name)
    (h : t.node (dir ++ [name]) = none) : before o t (dir ++ [name]) = .ok none := by
  rw [before, FileTree.pathExists_of_none hdir hname.notDotDot h]
  rfl

/-- A rollback takes a new file away. -/
theorem rollback_new (hroot : self.root <+: dir) (hleaf : d.tree.Leaf (dir ++ [name]))
    (hfile : d.tree.node (dir ++ [name]) = some (.file content)) (tmp : Path → Str) :
    ∃ undone d', self.rollback P o d tmp (receiptOf P self (dir ++ [name]) content none) =
      (.ok undone, d') ∧
      undone.ok = true ∧ ∀ q, d'.tree.node q = if q = dir ++ [name] then none
      else d.tree.node q := by
  obtain ⟨hdir, hname, -⟩ := FileTree.leaf_snoc.mp hleaf
  obtain ⟨d₁, hset⟩ : ∃ d₁, d.set (dir ++ [name]) none = .ok d₁ :=
    ⟨_, Disk.set_eq_ok.mpr ⟨hleaf, rfl⟩⟩
  have hnode := Disk.set_node hset
  have hunlink : d.unlink o.links (dir ++ [name]) = .ok d₁ := by
    rw [Disk.unlink, FileTree.place_entry hdir hname]
    exact (if_neg (by rw [hfile]; exact Option.some_ne_none _)).trans hset
  have hdir₁ : d₁.tree.node dir = some .dir := by
    rw [hnode, if_neg fun heq => by simpa using congrArg List.length heq, hdir]
  have hgone : d₁.tree.pathExists o.links (dir ++ [name]) = false :=
    FileTree.pathExists_of_none hdir₁ hname.notDotDot (by rw [hnode, if_pos rfl])
  refine ⟨⟨true, relativeText ((dir ++ [name]).drop self.root.length), none⟩, d₁, ?_, rfl, hnode⟩
  unfold rollback receiptOf
  simp only [safeTarget_file hroot hfile, FileTree.pathExists_of_solid ⟨_, hfile, fun _ => nofun⟩,
    Option.isSome_none, Bool.false_eq_true, if_false, if_true, hunlink, hgone]
  rfl

/-- A rollback writes the previous content. -/
theorem rollback_old {old : Bytes} (hroot : self.root <+: dir) (hleaf : d.tree.Leaf (dir ++ [name]))
    (hfile : d.tree.node (dir ++ [name]) = some (.file content)) (hfresh : Fresh d.tree tmp)
    (hsize : old.length ≤ self.maxBytes) :
    ∃ undone d', self.rollback P o d tmp (receiptOf P self (dir ++ [name]) content (some old)) =
      (.ok undone, d') ∧
      undone.ok = true ∧ ∀ q, d'.tree.node q = if q = dir ++ [name] then some (.file old)
      else d.tree.node q := by
  have htarget : self.safeTarget o d.tree (relativeText ((dir ++ [name]).drop self.root.length)) =
      .ok (dir ++ [name]) :=
    safeTarget_file hroot hfile
  obtain ⟨done, d₁, hwrite⟩ : ∃ done d₁,
    self.write P o d tmp (relativeText ((dir ++ [name]).drop self.root.length)) old none =
      (.ok done, d₁) := write_run htarget hleaf (before_file hfile) hfresh hsize
  obtain ⟨dir', name', previous, htarget', -, -, -, -, -, hnode⟩ := write_eq_ok hwrite
  rw [htarget] at htarget'
  rw [← Except.ok.inj htarget'] at hnode
  have hread : d₁.tree.readBytes o.links (dir ++ [name]) = .ok old :=
    FileTree.readBytes_of_file (by rw [hnode, if_pos rfl])
  refine ⟨⟨true, relativeText ((dir ++ [name]).drop self.root.length), some (P.hexdigest old)⟩, d₁,
    ?_, rfl, hnode⟩
  unfold rollback receiptOf
  simp only [htarget, hwrite, hread, Option.isSome_some, if_true, Option.map_some, decide_true]

/-- **Where a rollback restores the tree**: a target that was no link, and no larger than the limit.
-/
theorem rollback_restores_iff {tmp' : Path → Str}
    (h : self.write P o d tmp requested content expectedSha256 = (.ok receipt, d'))
    (hfresh : Fresh d'.tree tmp') :
    (∃ undone d'', self.rollback P o d' tmp' receipt = (.ok undone, d'') ∧ undone.ok = true ∧
      d''.tree = d.tree) ↔ Restorable o self d.tree requested := by
  obtain ⟨dir, name, previous, htarget, hroot, hleaf, hbefore, rfl, -, hnode⟩ := write_eq_ok h
  obtain ⟨hdir, hname, -⟩ := FileTree.leaf_snoc.mp hleaf
  have hfile : d'.tree.node (dir ++ [name]) = some (.file content) := by rw [hnode, if_pos rfl]
  have hleaf' : d'.tree.Leaf (dir ++ [name]) := by
    refine FileTree.leaf_snoc.mpr ⟨?_, hname, by rw [hfile]; nofun⟩
    exact d'.tree.parent dir name (by rw [hfile]; exact Option.some_ne_none _)
  constructor
  · rintro ⟨undone, d'', hrollback, -, htree⟩ path hpath
    rw [htarget] at hpath
    obtain rfl := Except.ok.inj hpath
    -- a rollback leaves the old file, if it fits the limit, or nothing
    have hleft := rollback_target hroot hfile rfl hrollback
    rw [htree] at hleft
    cases hold : d.tree.node (dir ++ [name]) with
    | none => trivial
    | some x =>
      rw [hold] at hleft
      cases x with
      | dir => exact hleaf.notDir hold
      | file old =>
        rcases hleft with ⟨b, -, hsize, hb⟩ | ⟨-, hb⟩
        · obtain rfl := FileNode.file.inj (Option.some.inj hb)
          exact hsize
        · cases hb
      | link target =>
        rcases hleft with ⟨b, -, -, hb⟩ | ⟨-, hb⟩
        · cases hb
        · cases hb
  · intro hrestorable
    -- a new file is removed, an old one is written back
    have hold := hrestorable (dir ++ [name]) htarget
    split at hold
    next hnone =>
      rw [before_none hdir hname hnone] at hbefore
      obtain rfl := Except.ok.inj hbefore
      obtain ⟨undone, d'', hrollback, hok, hnode'⟩ :=
        rollback_new (P := P) (o := o) hroot hleaf' hfile tmp'
      refine ⟨undone, d'', hrollback, hok, FileTree.ext (funext fun q => ?_)⟩
      rw [hnode', hnode]
      by_cases hq : q = dir ++ [name]
      · rw [if_pos hq, hq, hnone]
      · rw [if_neg hq, if_neg hq]
    next old hfileOld =>
      rw [before_file hfileOld] at hbefore
      obtain rfl := Except.ok.inj hbefore
      obtain ⟨undone, d'', hrollback, hok, hnode'⟩ :=
        rollback_old (P := P) (o := o) hroot hleaf' hfile hfresh hold
      refine ⟨undone, d'', hrollback, hok, FileTree.ext (funext fun q => ?_)⟩
      rw [hnode', hnode]
      by_cases hq : q = dir ++ [name]
      · rw [if_pos hq, hq, hfileOld]
      · rw [if_neg hq, if_neg hq]
    · exact hold.elim
    · exact hold.elim

/-- **Reversible writes**: neither call changes anything that is not an entry of a physical
directory below the root, and a rollback restores the tree exactly where the target was no link and
no larger than the limit. -/
theorem fileWriter_spec (P : Platform) (o : LinkLimits) (self : FileWriter) :
    (∀ d tmp requested content expectedSha256,
      Contained self.root d (self.write P o d tmp requested content expectedSha256).2) ∧
    (∀ d tmp receipt, Contained self.root d (self.rollback P o d tmp receipt).2) ∧
    ∀ d d' tmp tmp' requested content expectedSha256 receipt,
      self.write P o d tmp requested content expectedSha256 = (.ok receipt, d') →
      Fresh d'.tree tmp' →
        ((∃ undone d'', self.rollback P o d' tmp' receipt = (.ok undone, d'') ∧ undone.ok = true ∧
          d''.tree = d.tree) ↔ Restorable o self d.tree requested) :=
  ⟨write_contained, rollback_contained, fun _ _ _ _ _ _ _ _ h hfresh =>
    rollback_restores_iff h hfresh⟩

end FileWriter

/-! ## A file that is larger than the limit -/

section
variable (content : Bytes)

/-- The directory `/w` with the file `f` in it. -/
def sandboxTree : FileTree :=
  (FileTree.empty.set [lit "w"] (by decide) (some .dir)).set [lit "w", lit "f"] (by decide)
    (some (.file content))

theorem sandboxTree_node (q : Path) :
    (sandboxTree content).node q =
      if q = [lit "w", lit "f"] then some (.file content)
      else if q = [lit "w"] then some .dir else if q = [] then some .dir else none := by
  rw [sandboxTree, FileTree.set_node, FileTree.set_node]
  rfl

/-- A writer below `/w` for files of at most three bytes. -/
def sandboxWriter : FileWriter := ⟨[lit "w"], 3, by decide⟩

def temporaryName (_ : Path) : Str := lit "tmp"

/-- No file of the sandbox has the temporary name, whatever `f` holds. -/
theorem sandbox_fresh {t : FileTree} (h : ∀ q, q ≠ [lit "w", lit "f"] →
    t.node q = (sandboxTree content).node q) : FileWriter.Fresh t temporaryName := by
  intro dir _
  refine ⟨?_, show Plain (lit "tmp") by decide⟩
  have hlast : ∀ {q : Path}, dir ++ [temporaryName dir] = q → q.getLast? = some (lit "tmp") := by
    rintro q rfl
    exact List.getLast?_append_of_ne_nil dir (List.cons_ne_nil _ _)
  have hfile : dir ++ [temporaryName dir] ≠ [lit "w", lit "f"] :=
    fun heq => absurd (hlast heq) (by decide)
  have hdir : dir ++ [temporaryName dir] ≠ [lit "w"] := fun heq => absurd (hlast heq) (by decide)
  rw [h _ hfile, sandboxTree_node, if_neg hfile, if_neg hdir, if_neg (by simp)]

/-- A write of one byte to `f`. -/
theorem sandbox_write (P : Platform) (o : LinkLimits) : ∃ receipt d',
    sandboxWriter.write P o ⟨sandboxTree content, []⟩ temporaryName (lit "f") [5] none =
    (.ok receipt, d') ∧ FileWriter.Fresh d'.tree temporaryName ∧
        sandboxWriter.safeTarget o (sandboxTree content) (lit "f") =
        .ok ([lit "w"] ++ [lit "f"]) := by
  have hfile : (sandboxTree content).node ([lit "w"] ++ [lit "f"]) = some (.file content) := by
    rw [sandboxTree_node]
    rfl
  have hdir : (sandboxTree content).node [lit "w"] = some .dir := by
    rw [sandboxTree_node]
    rfl
  have htarget : sandboxWriter.safeTarget o (sandboxTree content) (lit "f") =
      .ok ([lit "w"] ++ [lit "f"]) :=
    @FileWriter.safeTarget_file o sandboxWriter _ _ _ content (List.prefix_refl _) hfile
  have hleaf : (sandboxTree content).Leaf ([lit "w"] ++ [lit "f"]) :=
    FileTree.leaf_snoc.mpr ⟨hdir, by decide, by rw [hfile]; nofun⟩
  obtain ⟨receipt, d', hwrite⟩ : ∃ receipt d', sandboxWriter.write P o ⟨sandboxTree content, []⟩
    temporaryName (lit "f") [5] none =
      (.ok receipt, d') :=
      FileWriter.write_run (P := P) (d := ⟨sandboxTree content, []⟩) htarget hleaf
    (FileWriter.before_file hfile) (sandbox_fresh content fun _ _ => rfl) (by decide)
  obtain ⟨dir, name, previous, htarget', -, -, -, -, -, hnode⟩ := FileWriter.write_eq_ok hwrite
  rw [htarget] at htarget'
  rw [← Except.ok.inj htarget'] at hnode
  exact ⟨receipt, d', hwrite, sandbox_fresh content fun q hq =>
    (hnode q).trans (if_neg hq), htarget⟩

end

-- `..` after a file: the link is no obstacle.
example : sandboxWriter.safeTarget ⟨40, 60⟩
    ((sandboxTree [1]).set [lit "w", lit "l"] (by decide) (some (.link (lit "/x"))))
    (lit "f/../l") = .ok [lit "w", lit "l"] := by decide +kernel

/-- A file of two bytes comes back. -/
theorem fileWriter_spec_sandbox : ∃ receipt d' undone d'',
    sandboxWriter.write .tagged ⟨40, 60⟩ ⟨sandboxTree [1, 2], []⟩ temporaryName (lit "f") [5] none =
    (.ok receipt, d') ∧
      sandboxWriter.rollback .tagged ⟨40, 60⟩ d' temporaryName receipt = (.ok undone, d'') ∧
      undone.ok = true ∧ d''.tree = sandboxTree [1, 2] := by
  obtain ⟨receipt, d', hwrite, hfresh, htarget⟩ := sandbox_write [1, 2] .tagged ⟨40, 60⟩
  have hrestorable : FileWriter.Restorable ⟨40, 60⟩ sandboxWriter (sandboxTree [1, 2])
      (lit "f") := by
    intro path hpath
    rw [htarget] at hpath
    rw [← Except.ok.inj hpath, sandboxTree_node]
    show 2 ≤ 3
    decide
  obtain ⟨undone, d'', hrollback⟩ :=
    ((FileWriter.fileWriter_spec .tagged ⟨40, 60⟩ sandboxWriter).2.2 _ _ _ temporaryName
      _ _ _ _ hwrite hfresh).mpr hrestorable
  exact ⟨receipt, d', undone, d'', hwrite, hrollback⟩

/-- A file of four bytes does not: the rollback is refused. -/
theorem large_not_restored :
    ¬ ∀ (P : Platform) (o : LinkLimits) (self : FileWriter) (d d' : Disk) (tmp tmp' : Path → Str)
    (requested : Str) (content : Bytes) (expectedSha256 : Option Str) (receipt : FileWriteReceipt),
      self.write P o d tmp requested content expectedSha256 = (.ok receipt, d') →
        FileWriter.Fresh d'.tree tmp' →
        ∃ undone d'', self.rollback P o d' tmp' receipt = (.ok undone, d'') ∧ undone.ok = true ∧
        d''.tree = d.tree := by
  intro h
  obtain ⟨receipt, d', hwrite, hfresh, htarget⟩ := sandbox_write [1, 2, 3, 4] .tagged ⟨40, 60⟩
  have hrestorable := (FileWriter.rollback_restores_iff hwrite hfresh).mp
    (h .tagged ⟨40, 60⟩ sandboxWriter _ d' _ temporaryName _ _ _ receipt hwrite hfresh) _ htarget
  rw [sandboxTree_node] at hrestorable
  exact absurd (show 4 ≤ 3 from hrestorable) (by decide)

end Node
