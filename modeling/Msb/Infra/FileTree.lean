import Msb.Infra.Text

/-!
# A file tree

Directories, regular files and symbolic links, by their physical paths. A path is walked component
by component: `..` goes back by one, and a symbolic link is replaced by its target. The number of
links that a walk may follow is bounded, and the walk returns what is left of it.

A walk by the operating system (`strict`) goes on from directories only. `os.path.realpath` takes
`..` back from a regular file as well.

* `walk_append` — a walk is the walk of its first part and then of the rest
* `walk_solid` — no walk ends at a symbolic link
* `walk_physical` — a physical path leads to itself
* `walk_strict` — where the operating system gets to, `realpath` gets to
-/

namespace Py

/-- The components of a path below the root. -/
abbrev Path := List Str

/-- What an entry of a directory may be called. -/
structure Plain (name : Str) : Prop where
  nonempty : name ≠ []
  noSlash : 47 ∉ name
  noNul : 0 ∉ name
  notDot : name ≠ lit "."
  notDotDot : name ≠ lit ".."

instance : DecidablePred Plain := fun name =>
  decidable_of_iff (name ≠ [] ∧ 47 ∉ name ∧ 0 ∉ name ∧ name ≠ lit "." ∧ name ≠ lit "..")
    ⟨fun ⟨h1, h2, h3, h4, h5⟩ => ⟨h1, h2, h3, h4, h5⟩,
      fun h => ⟨h.nonempty, h.noSlash, h.noNul, h.notDot, h.notDotDot⟩⟩

/-- Why a call of the operating system fails. -/
inductive OsError where
  | notFound
  | notDirectory
  | isDirectory
  | exists
  | loop
  | busy
  deriving DecidableEq

inductive FileNode where
  | dir
  | file (content : Bytes)
  | link (target : Str)
  deriving DecidableEq

def FileNode.isLink : FileNode → Bool
  | .link _ => true
  | _ => false

/-- What is read of an entry. -/
def FileNode.read : FileNode → Except OsError Bytes
  | .file content => .ok content
  | _ => .error .isDirectory

/-- Every entry stands in a directory. -/
@[ext] structure FileTree where
  node : Path → Option FileNode
  root : node [] = some .dir
  parent : ∀ p name, node (p ++ [name]) ≠ none → node p = some .dir
  plain : ∀ p name, node (p ++ [name]) ≠ none → Plain name

/-! ## The text of a path -/

/-- The components of a path, as `PurePosixPath` reads them. -/
def splitPath (s : Str) : Path := (s.splitOn 47).filter fun c => c ≠ [] ∧ c ≠ lit "."

def isAbsolute (s : Str) : Bool := s.head? = some 47

/-- `str` of a relative path. -/
def joinPath (p : Path) : Str := [47].intercalate p

theorem splitPath_joinPath {p : Path} (h : ∀ c ∈ p, Plain c) : splitPath (joinPath p) = p := by
  cases p with
  | nil => rfl
  | cons c rest =>
    have hsplit : (joinPath (c :: rest)).splitOn 47 = c :: rest :=
      List.splitOn_intercalate 47 (fun l hl => (h l hl).noSlash) (List.cons_ne_nil _ _)
    rw [splitPath, hsplit, List.filter_eq_self]
    intro l hl
    exact decide_eq_true ⟨(h l hl).nonempty, (h l hl).notDot⟩

theorem not_isAbsolute_joinPath {p : Path} (h : ∀ c ∈ p, Plain c) :
    isAbsolute (joinPath p) = false := by
  cases p with
  | nil => rfl
  | cons c rest =>
    obtain ⟨x, xs, rfl⟩ := List.exists_cons_of_ne_nil (h c List.mem_cons_self).nonempty
    have hx : x ≠ 47 := fun heq => (h _ List.mem_cons_self).noSlash (heq ▸ List.mem_cons_self)
    cases rest with
    | nil => simpa [isAbsolute, joinPath, List.intercalate] using hx
    | cons d rest => simpa [isAbsolute, joinPath, List.intercalate] using hx

theorem joinPath_ne_nil {p : Path} (h : ∀ c ∈ p, Plain c) (hp : p ≠ []) : joinPath p ≠ [] := by
  intro hnil
  have hsplit := splitPath_joinPath h
  rw [hnil] at hsplit
  exact hp hsplit.symm

theorem nul_notMem_joinPath : ∀ {p : Path}, (∀ c ∈ p, Plain c) → 0 ∉ joinPath p
  | [], _ => List.not_mem_nil
  | [c], h => by simpa [joinPath, List.intercalate] using (h c List.mem_cons_self).noNul
  | c :: d :: rest, h => by
    have hjoin : joinPath (c :: d :: rest) = c ++ 47 :: joinPath (d :: rest) := by
      simp [joinPath, List.intercalate]
    have hrest := nul_notMem_joinPath fun x hx => h x (List.mem_cons_of_mem c hx)
    rw [hjoin, List.mem_append, List.mem_cons]
    rintro (hc | hc | hc)
    · exact (h c List.mem_cons_self).noNul hc
    · cases hc
    · exact hrest hc

/-! ## Walks -/

namespace FileTree

variable (t : FileTree) (strict : Bool)

/-- A walk from `here`. `follow` goes on where a link is found, and `links` are the links left. -/
def walkWith (follow : Path → Path → Except OsError (Path × Nat)) (links : Nat) :
    Path → Path → Except OsError (Path × Nat)
  | here, [] => .ok (here, links)
  | here, name :: rest =>
    if strict = true ∧ t.node here ≠ some .dir then .error .notDirectory
    else if name = lit ".." then walkWith follow links here.dropLast rest
    else
      match t.node (here ++ [name]) with
      | none => .error (if t.node here = some .dir then .notFound else .notDirectory)
      | some (.link target) =>
        follow (if isAbsolute target then [] else here) (splitPath target ++ rest)
      | some .dir | some (.file _) => walkWith follow links (here ++ [name]) rest

/-- A walk that follows at most `links` links, and the links that are left. -/
def walk : Nat → Path → Path → Except OsError (Path × Nat)
  | 0 => t.walkWith strict (fun _ _ => .error .loop) 0
  | links + 1 => t.walkWith strict (walk links) (links + 1)

/-- The operating system does not go on from here. -/
def Blocked (here : Path) : Prop := strict = true ∧ t.node here ≠ some .dir

instance (here : Path) : Decidable (t.Blocked strict here) := inferInstanceAs (Decidable (_ ∧ _))

variable {t strict} {links : Nat} {here rest p : Path} {name target : Str}

@[simp] theorem walk_nil (links : Nat) (here : Path) :
    t.walk strict links here [] = .ok (here, links) := by
  cases links <;> rfl

theorem walk_blocked (h : t.Blocked strict here) :
    t.walk strict links here (name :: rest) = .error .notDirectory := by
  cases links <;> exact if_pos h

theorem walk_dotDot (h : ¬ t.Blocked strict here) :
    t.walk strict links here (lit ".." :: rest) = t.walk strict links here.dropLast rest := by
  cases links <;> exact (if_neg h).trans (if_pos rfl)

theorem walk_missing (h : ¬ t.Blocked strict here) (hname : name ≠ lit "..")
    (hnode : t.node (here ++ [name]) = none) :
    t.walk strict links here (name :: rest) =
    .error (if t.node here = some .dir then .notFound else .notDirectory) := by
  cases links <;>
  · refine (if_neg h).trans ((if_neg hname).trans ?_)
    rw [hnode]

theorem walk_link_zero (h : ¬ t.Blocked strict here) (hname : name ≠ lit "..")
    (hnode : t.node (here ++ [name]) = some (.link target)) :
    t.walk strict 0 here (name :: rest) = .error .loop := by
  refine (if_neg h).trans ((if_neg hname).trans ?_)
  rw [hnode]

theorem walk_link_succ (h : ¬ t.Blocked strict here) (hname : name ≠ lit "..")
    (hnode : t.node (here ++ [name]) = some (.link target)) :
    t.walk strict (links + 1) here (name :: rest) =
      t.walk strict links (if isAbsolute target then [] else here) (splitPath target ++ rest) := by
  refine (if_neg h).trans ((if_neg hname).trans ?_)
  rw [hnode]

theorem walk_entry {x : FileNode} (h : ¬ t.Blocked strict here) (hname : name ≠ lit "..")
    (hnode : t.node (here ++ [name]) = some x) (hx : ∀ target, x ≠ .link target) :
    t.walk strict links here (name :: rest) = t.walk strict links (here ++ [name]) rest := by
  cases links <;>
  · refine (if_neg h).trans ((if_neg hname).trans ?_)
    rw [hnode]
    cases x with
    | link target => exact absurd rfl (hx target)
    | dir => rfl
    | file content => rfl

/-- **Induction along a walk**: by the links that are left, and by the components. -/
theorem walk_induction (t : FileTree) (strict : Bool) {Q : Nat → Path → Path → Prop}
    (nil : ∀ links here, Q links here [])
    (blocked : ∀ links here name rest, t.Blocked strict here → Q links here (name :: rest))
    (dotDot : ∀ links here rest, ¬ t.Blocked strict here → Q links here.dropLast rest →
      Q links here (lit ".." :: rest))
    (missing : ∀ links here name rest, ¬ t.Blocked strict here → name ≠ lit ".." →
      t.node (here ++ [name]) = none → Q links here (name :: rest))
    (linkZero : ∀ here name target rest, ¬ t.Blocked strict here → name ≠ lit ".." →
      t.node (here ++ [name]) = some (.link target) → Q 0 here (name :: rest))
    (linkSucc : ∀ links here name target rest, ¬ t.Blocked strict here → name ≠ lit ".." →
      t.node (here ++ [name]) = some (.link target) →
      Q links (if isAbsolute target then [] else here) (splitPath target ++ rest) →
        Q (links + 1) here (name :: rest))
    (entry : ∀ links here name x rest, ¬ t.Blocked strict here → name ≠ lit ".." →
      t.node (here ++ [name]) = some x →
      (∀ target, x ≠ .link target) → Q links (here ++ [name]) rest → Q links here (name :: rest)) :
    ∀ links here rest, Q links here rest := by
  intro links
  -- the links first: the components may become more where a link is followed
  induction links with
  | zero =>
    intro here rest
    induction rest generalizing here with
    | nil => exact nil 0 here
    | cons name rest ih =>
      by_cases hb : t.Blocked strict here
      · exact blocked 0 here name rest hb
      by_cases hname : name = lit ".."
      · subst hname
        exact dotDot 0 here rest hb (ih _)
      cases hnode : t.node (here ++ [name]) with
      | none => exact missing 0 here name rest hb hname hnode
      | some x =>
        cases x with
        | link target => exact linkZero here name target rest hb hname hnode
        | dir => exact entry 0 here name .dir rest hb hname hnode (fun _ => nofun) (ih _)
        | file content =>
          exact entry 0 here name (.file content) rest hb hname hnode (fun _ => nofun) (ih _)
  | succ links ihLinks =>
    intro here rest
    induction rest generalizing here with
    | nil => exact nil _ here
    | cons name rest ih =>
      by_cases hb : t.Blocked strict here
      · exact blocked _ here name rest hb
      by_cases hname : name = lit ".."
      · subst hname
        exact dotDot _ here rest hb (ih _)
      cases hnode : t.node (here ++ [name]) with
      | none => exact missing _ here name rest hb hname hnode
      | some x =>
        cases x with
        | link target => exact linkSucc links here name target rest hb hname hnode (ihLinks _ _)
        | dir => exact entry _ here name .dir rest hb hname hnode (fun _ => nofun) (ih _)
        | file content =>
          exact entry _ here name (.file content) rest hb hname hnode (fun _ => nofun) (ih _)

/-- **A walk is the walk of its first part and then of the rest.** -/
theorem walk_append (t : FileTree) (strict : Bool) (ys : Path) : ∀ (links : Nat) (here xs : Path),
    t.walk strict links here (xs ++ ys) = (t.walk strict links here xs).bind fun r =>
    t.walk strict r.2 r.1 ys := by
  intro links here xs
  induction links, here, xs using t.walk_induction strict
  case nil links here =>
    rw [walk_nil]
    rfl
  case blocked links here name rest hb =>
    rw [List.cons_append, walk_blocked hb, walk_blocked hb]
    rfl
  case dotDot links here rest hb ih =>
    rw [List.cons_append, walk_dotDot hb, walk_dotDot hb, ih]
  case missing links here name rest hb hname hnode =>
    rw [List.cons_append, walk_missing hb hname hnode, walk_missing hb hname hnode]
    rfl
  case linkZero here name target rest hb hname hnode =>
    rw [List.cons_append, walk_link_zero hb hname hnode, walk_link_zero hb hname hnode]
    rfl
  case linkSucc links here name target rest hb hname hnode ih =>
    rw [List.cons_append, walk_link_succ hb hname hnode, walk_link_succ hb hname hnode,
      ← List.append_assoc, ih]
  case entry links here name x rest hb hname hnode hx ih =>
    rw [List.cons_append, walk_entry hb hname hnode hx, walk_entry hb hname hnode hx, ih]

/-- There is an entry, and it is no symbolic link. -/
def Solid (t : FileTree) (p : Path) : Prop := ∃ x, t.node p = some x ∧ ∀ target, x ≠ .link target

theorem solid_of_dir {p : Path} (h : t.node p = some .dir) : t.Solid p := ⟨.dir, h, fun _ => nofun⟩

theorem solid_root (t : FileTree) : t.Solid [] := solid_of_dir t.root

/-- What is above an entry is a directory. -/
theorem dir_of_append {p q : Path} (h : t.node (p ++ q) ≠ none) (hq : q ≠ []) :
    t.node p = some .dir := by
  induction q using List.reverseRecOn with
  | nil => exact absurd rfl hq
  | append_singleton q name ih =>
    rw [← List.append_assoc] at h
    have hdir := t.parent (p ++ q) name h
    by_cases hnil : q = []
    · rwa [hnil, List.append_nil] at hdir
    · exact ih (by rw [hdir]; exact Option.some_ne_none _) hnil

/-- The components of an entry are names of entries. -/
theorem plain_of_mem {p : Path} (h : t.node p ≠ none) : ∀ c ∈ p, Plain c := by
  induction p using List.reverseRecOn with
  | nil => exact nofun
  | append_singleton q name ih =>
    intro c hc
    rcases List.mem_append.mp hc with hc | hc
    · exact ih (by rw [t.parent q name h]; exact Option.some_ne_none _) c hc
    · rw [List.mem_singleton.mp hc]
      exact t.plain q name h

theorem Solid.dropLast {p : Path} (h : t.Solid p) : t.Solid p.dropLast := by
  rcases List.eq_nil_or_concat p with rfl | ⟨q, name, rfl⟩
  · exact solid_root t
  · obtain ⟨x, hx, -⟩ := h
    rw [List.concat_eq_append] at hx ⊢
    rw [List.dropLast_concat]
    exact solid_of_dir (t.parent q name (by rw [hx]; exact Option.some_ne_none _))

/-- **No walk ends at a symbolic link.** -/
theorem walk_solid (t : FileTree) (strict : Bool) : ∀ (links : Nat) (here xs : Path), t.Solid here →
    ∀ r, t.walk strict links here xs = .ok r → t.Solid r.1 := by
  intro links here xs
  induction links, here, xs using t.walk_induction strict
  case nil links here =>
    intro hsolid r hr
    rw [walk_nil] at hr
    obtain rfl := Except.ok.inj hr
    exact hsolid
  case blocked links here name rest hb =>
    intro _ r hr
    rw [walk_blocked hb] at hr
    cases hr
  case dotDot links here rest hb ih =>
    intro hsolid r hr
    rw [walk_dotDot hb] at hr
    exact ih hsolid.dropLast r hr
  case missing links here name rest hb hname hnode =>
    intro _ r hr
    rw [walk_missing hb hname hnode] at hr
    cases hr
  case linkZero here name target rest hb hname hnode =>
    intro _ r hr
    rw [walk_link_zero hb hname hnode] at hr
    cases hr
  case linkSucc links here name target rest hb hname hnode ih =>
    intro hsolid r hr
    rw [walk_link_succ hb hname hnode] at hr
    refine ih ?_ r hr
    split
    · exact solid_root t
    · exact hsolid
  case entry links here name x rest hb hname hnode hx ih =>
    intro _ r hr
    rw [walk_entry hb hname hnode hx] at hr
    exact ih ⟨x, hnode, hx⟩ r hr

/-- **A physical path leads to itself.** -/
theorem walk_physical (strict : Bool) (links : Nat) : ∀ {here xs : Path}, t.Solid (here ++ xs) →
    t.walk strict links here xs = .ok (here ++ xs, links)
  | here, [], _ => by rw [walk_nil, List.append_nil]
  | here, name :: rest, h => by
    rw [List.append_cons] at h ⊢
    have hnode : t.node ((here ++ [name]) ++ rest) ≠ none := by
      obtain ⟨x, hx, -⟩ := h
      rw [hx]
      exact Option.some_ne_none _
    have hentry : t.Solid (here ++ [name]) := by
      by_cases hrest : rest = []
      · rwa [hrest, List.append_nil] at h
      · exact solid_of_dir (dir_of_append hnode hrest)
    obtain ⟨x, hx, hsolid⟩ := hentry
    have hsome : t.node (here ++ [name]) ≠ none := by
      rw [hx]
      exact Option.some_ne_none _
    have hb : ¬ t.Blocked strict here := fun hb => hb.2 (t.parent here name hsome)
    rw [walk_entry hb (t.plain here name hsome).notDotDot hx hsolid]
    exact walk_physical strict links h

/-- **Where the operating system gets to, `realpath` gets to**, with no less links. -/
theorem walk_strict (t : FileTree) (more : Nat) : ∀ (links : Nat) (here xs : Path), ∀ r,
    t.walk true links here xs = .ok r → t.walk false (links + more) here xs =
    .ok (r.1, r.2 + more) := by
  have hfree : ∀ here, ¬ t.Blocked false here := fun here hb => Bool.false_ne_true hb.1
  intro links here xs
  induction links, here, xs using t.walk_induction true
  case nil links here =>
    intro r hr
    rw [walk_nil] at hr
    obtain rfl := Except.ok.inj hr
    exact walk_nil _ here
  case blocked links here name rest hb =>
    intro r hr
    rw [walk_blocked hb] at hr
    cases hr
  case dotDot links here rest hb ih =>
    intro r hr
    rw [walk_dotDot hb] at hr
    rw [walk_dotDot (hfree here)]
    exact ih r hr
  case missing links here name rest hb hname hnode =>
    intro r hr
    rw [walk_missing hb hname hnode] at hr
    cases hr
  case linkZero here name target rest hb hname hnode =>
    intro r hr
    rw [walk_link_zero hb hname hnode] at hr
    cases hr
  case linkSucc links here name target rest hb hname hnode ih =>
    intro r hr
    rw [walk_link_succ hb hname hnode] at hr
    rw [Nat.add_right_comm, walk_link_succ (hfree here) hname hnode]
    exact ih r hr
  case entry links here name x rest hb hname hnode hx ih =>
    intro r hr
    rw [walk_entry hb hname hnode hx] at hr
    rw [walk_entry (hfree here) hname hnode hx]
    exact ih r hr

/-! ## Calls -/

section
variable (t : FileTree) (links : Nat)

/-- Where the entry of a path stands: its last component is not followed. -/
def place (path : Path) : Except OsError Path :=
  match path.getLast? with
  | none => .error .busy
  | some name => do
    let r ← t.walk true links [] path.dropLast
    if t.node r.1 ≠ some .dir then .error .notDirectory
    else if name = lit ".." then .error .busy
    else .ok (r.1 ++ [name])

/-- `Path.is_symlink` -/
def isSymlink (path : Path) : Bool :=
  match t.place links path with
  | .ok p => (t.node p).any FileNode.isLink
  | .error _ => false

/-- `Path.exists` -/
def pathExists (path : Path) : Bool := (t.walk true links [] path).isOk

/-- `Path.read_bytes` -/
def readBytes (path : Path) : Except OsError Bytes := do
  let r ← t.walk true links [] path
  ((t.node r.1).map FileNode.read).getD (.error .notFound)

/-- `Path.is_file` -/
def isFile (path : Path) : Bool := (t.readBytes links path).isOk

end

/-! ### In a physical directory -/

section
variable {dir : Path}

theorem walk_snoc (h : t.Solid dir) :
    t.walk strict links [] (dir ++ [name]) = t.walk strict links dir [name] := by
  rw [walk_append, walk_physical strict links (by simpa using h)]
  rfl

theorem place_append {cs : Path} {k : Nat} (h : t.walk true links [] cs = .ok (dir, k)) :
    t.place links (cs ++ [name]) =
      if t.node dir ≠ some .dir then .error .notDirectory else if name = lit ".." then .error .busy
      else .ok (dir ++ [name]) := by
  unfold place
  rw [List.getLast?_append_of_ne_nil cs (List.cons_ne_nil name []), List.dropLast_concat, h]
  rfl

theorem place_snoc (h : t.Solid dir) :
    t.place links (dir ++ [name]) =
      if t.node dir ≠ some .dir then .error .notDirectory else if name = lit ".." then .error .busy
      else .ok (dir ++ [name]) :=
  place_append (walk_physical true links (by simpa using h))

theorem place_snoc_eq_ok (h : t.Solid dir) (hplace : t.place links (dir ++ [name]) = .ok p) :
    t.node dir = some .dir ∧ p = dir ++ [name] := by
  rw [place_snoc h] at hplace
  split at hplace
  · cases hplace
  next hdir =>
  split at hplace
  · cases hplace
  · exact ⟨not_not.mp hdir, (Except.ok.inj hplace).symm⟩

theorem place_entry (hdir : t.node dir = some .dir) (hname : Plain name) :
    t.place links (dir ++ [name]) = .ok (dir ++ [name]) := by
  rw [place_snoc (solid_of_dir hdir), if_neg (not_not.mpr hdir), if_neg hname.notDotDot]

theorem isSymlink_entry (hdir : t.node dir = some .dir) (hname : Plain name) :
    t.isSymlink links (dir ++ [name]) = true ↔ ∃ target, t.node (dir ++ [name]) =
    some (.link target) := by
  unfold isSymlink
  rw [place_entry hdir hname]
  show (t.node (dir ++ [name])).any FileNode.isLink = true ↔ _
  rcases t.node (dir ++ [name]) with _ | _ | content | target <;> simp [FileNode.isLink]

theorem pathExists_of_solid (h : t.Solid p) : t.pathExists links p = true := by
  rw [pathExists, walk_physical true links (by simpa using h)]
  rfl

theorem pathExists_of_none (hdir : t.node dir = some .dir) (hname : name ≠ lit "..")
    (h : t.node (dir ++ [name]) = none) : t.pathExists links (dir ++ [name]) = false := by
  rw [pathExists, walk_snoc (solid_of_dir hdir), walk_missing (fun hb => hb.2 hdir) hname h]
  rfl

theorem readBytes_of_solid (h : t.Solid p) :
    t.readBytes links p = ((t.node p).map FileNode.read).getD (.error .notFound) := by
  have hwalk : t.walk true links [] p = .ok (p, links) :=
    walk_physical true links (by simpa using h)
  rw [readBytes, hwalk]
  rfl

theorem readBytes_of_file {content : Bytes} (h : t.node p = some (.file content)) :
    t.readBytes links p = .ok content := by
  rw [readBytes_of_solid ⟨_, h, fun _ => nofun⟩, h]
  rfl

/-- A physical path that is a file. -/
theorem isFile_of_solid (h : t.Solid p) :
    t.isFile links p = true ↔ ∃ content, t.node p = some (.file content) := by
  obtain ⟨x, hx, hlink⟩ := h
  rw [isFile, readBytes_of_solid ⟨x, hx, hlink⟩, hx]
  cases x with
  | dir => simp [FileNode.read, Except.isOk, Except.toBool]
  | file content => simp [FileNode.read, Except.isOk, Except.toBool]
  | link target => exact absurd rfl (hlink target)

end

/-! ## Changes -/

/-- A place for an entry: in a directory, and no directory itself. -/
structure Leaf (t : FileTree) (p : Path) : Prop where
  named : ∃ name ∈ p.getLast?, Plain name
  inDir : t.node p.dropLast = some .dir
  notDir : t.node p ≠ some .dir

instance (t : FileTree) (p : Path) : Decidable (t.Leaf p) :=
  decidable_of_iff ((∃ name, name ∈ p.getLast? ∧ Plain name) ∧ t.node p.dropLast = some .dir ∧
    t.node p ≠ some .dir) ⟨fun ⟨h1, h2, h3⟩ => ⟨h1, h2, h3⟩, fun h => ⟨h.named, h.inDir, h.notDir⟩⟩

theorem leaf_snoc {dir : Path} :
    t.Leaf (dir ++ [name]) ↔ t.node dir = some .dir ∧ Plain name ∧
    t.node (dir ++ [name]) ≠ some .dir := by
  have hlast : (dir ++ [name]).getLast? = some name :=
    List.getLast?_append_of_ne_nil dir (List.cons_ne_nil name [])
  have hdrop : (dir ++ [name]).dropLast = dir := List.dropLast_concat
  constructor
  · rintro ⟨⟨other, hother, hplain⟩, hdir, hnot⟩
    rw [hlast] at hother
    obtain rfl := Option.some.inj hother
    exact ⟨hdrop ▸ hdir, hplain, hnot⟩
  · rintro ⟨hdir, hplain, hnot⟩
    exact ⟨⟨name, hlast, hplain⟩, by rwa [hdrop], hnot⟩

theorem Leaf.snoc (h : t.Leaf p) :
    ∃ dir name, p = dir ++ [name] ∧ Plain name ∧ t.node dir = some .dir := by
  rcases List.eq_nil_or_concat' p with rfl | ⟨dir, name, rfl⟩
  · obtain ⟨name, hname, -⟩ := h.named
    cases hname
  · obtain ⟨hdir, hplain, -⟩ := leaf_snoc.mp h
    exact ⟨dir, name, rfl, hplain, hdir⟩

/-- The tree with something else at `p`. -/
def set (t : FileTree) (p : Path) (h : t.Leaf p) (x : Option FileNode) : FileTree where
  node := Function.update t.node p x
  root := by
    obtain ⟨dir, name, rfl, -, -⟩ := h.snoc
    rw [Function.update_of_ne (by simp)]
    exact t.root
  parent q name hq := by
    have hold : t.node q = some .dir := by
      by_cases heq : q ++ [name] = p
      · obtain ⟨dir, name', rfl, -, hdir⟩ := h.snoc
        rwa [(List.append_inj' heq rfl).1]
      · rw [Function.update_of_ne heq] at hq
        exact t.parent q name hq
    have hne : q ≠ p := by
      rintro rfl
      exact h.notDir hold
    rwa [Function.update_of_ne hne]
  plain q name hq := by
    by_cases heq : q ++ [name] = p
    · obtain ⟨dir, name', rfl, hplain, -⟩ := h.snoc
      rwa [List.singleton_inj.mp (List.append_inj' heq rfl).2]
    · rw [Function.update_of_ne heq] at hq
      exact t.plain q name hq

theorem set_node (h : t.Leaf p) (x : Option FileNode) (q : Path) :
    (t.set p h x).node q = if q = p then x else t.node q := by
  rw [set]
  exact Function.update_apply t.node p x q

/-- The root alone. -/
def empty : FileTree where
  node p := if p = [] then some .dir else none
  root := rfl
  parent p name h := absurd (if_neg (by simp)) h
  plain p name h := absurd (if_neg (by simp)) h

end FileTree

end Py
