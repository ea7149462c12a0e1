import Msb.Infra.Keyed
import Msb.Infra.Text

/-!
# The blast radius of a change

`CodeGraphQueries.impact_of` of `codegraph/queries.py` over the tables of `codegraph/store.py`: the
callers of the symbols of a file, and the callers of these.

The second round writes over what the first one has found. A caller of a seed that also calls
another caller of a seed is in the report with two steps, and all of the report counts as direct.

* `hopOf_impactOf` — the hop that is reported for a symbol
* `impact_law` — when the report is exact
-/

namespace Codegraph

open Py

/-! ## The tables -/

inductive NodeKind where
  | file
  | pyModule
  | pyClass
  | function
  | method
  | type
  | route
  deriving DecidableEq

def NodeKind.text : NodeKind → Str
  | .file => lit "file"
  | .pyModule => lit "module"
  | .pyClass => lit "class"
  | .function => lit "function"
  | .method => lit "method"
  | .type => lit "type"
  | .route => lit "route"

inductive EdgeRelation where
  | contains
  | calls
  | imports
  | inherits
  | references
  deriving DecidableEq

/-- A row of `codegraph_nodes`, with what `impact_of` reads of it. -/
structure CodeNode where
  repo : Str
  kind : NodeKind
  fqName : Str
  file : Str
  line : ℤ

/-- A row of `codegraph_edges`. -/
structure CodeEdge where
  repo : Str
  relation : EdgeRelation
  source : Str
  target : Str
  file : Str
  line : ℤ

structure CodeGraphStore where
  nodes : List CodeNode
  edges : List CodeEdge

variable (g : CodeGraphStore) (repo : Str)

/-- `SELECT * FROM codegraph_nodes WHERE repo=? AND fq_name=?` -/
def CodeGraphStore.getNode (fqName : Str) : Option CodeNode :=
  g.nodes.find? fun n => n.repo = repo ∧ n.fqName = fqName

/-- `WHERE repo=? AND file=? ORDER BY line` -/
def CodeGraphStore.nodesForFile (file : Str) : List CodeNode :=
  (g.nodes.filter fun n => n.repo = repo ∧ n.file = file).mergeSort fun a b =>
    decide (a.line ≤ b.line)

/-- `WHERE repo=? AND target=? AND relation=? ORDER BY file, line` -/
def CodeGraphStore.edgesTo (target : Str) (relation : EdgeRelation) : List CodeEdge :=
  (g.edges.filter fun e => e.repo = repo ∧ e.target = target ∧ e.relation = relation).mergeSort
    fun a b =>
    decide (a.file < b.file ∨ (a.file = b.file ∧ a.line ≤ b.line))

/-! ## `impact_of` -/

/-- An entry of the report. -/
structure Dependent where
  symbol : Str
  file : Str
  line : ℤ
  kind : Str
  hop : ℕ

/-- The report. -/
structure Impact where
  file : Str
  line : Option ℤ
  seeds : List Str
  direct : ℕ
  dependents : List Dependent

/-- The symbols of the file, or the last one that starts at the line or above. -/
def seedNodes (file : Str) (line : ℤ) : List CodeNode :=
  let nodes := g.nodesForFile repo file
  if line = 0 then nodes
  else
    match nodes.filter fun n => 0 < n.line ∧ n.line ≤ line with
    -- `max` keeps the first of the greatest
    | n :: rest => [rest.foldl (fun best n => if best.line < n.line then n else best) n]
    | [] => nodes

/-- The seeds, without files and modules. -/
def seedsOf (file : Str) (line : ℤ) : List Str :=
  ((seedNodes g repo file line).filter fun n => ¬ (n.kind = .file ∨ n.kind = .pyModule)).map
    CodeNode.fqName

/-- `reachable`, `seen` and `nxt`. -/
structure Walk where
  reachable : List Dependent
  seen : List Str
  next : List Str

/-- The entry of the source of an edge. -/
def dependentOf (hop : ℕ) (e : CodeEdge) : Dependent :=
  match g.getNode repo e.source with
  | some n => ⟨e.source, n.file, n.line, n.kind.text, hop⟩
  | none => ⟨e.source, e.file, e.line, lit "?", hop⟩

/-- One edge. -/
def meet (hop : ℕ) (w : Walk) (e : CodeEdge) : Walk :=
  { w with
    reachable := Keyed.put Dependent.symbol (dependentOf g repo hop e) w.reachable
    next := w.next ++ [e.source] }

/-- One symbol of the frontier. -/
def expand (hop : ℕ) (w : Walk) (fq : Str) : Walk :=
  if fq ∈ w.seen then w
  else (g.edgesTo repo fq .calls).foldl (meet g repo hop) { w with seen := fq :: w.seen }

/-- One round: what the last one has found is the frontier. -/
def ring (hop : ℕ) (w : Walk) : Walk := w.next.foldl (expand g repo hop) { w with next := [] }

/-- `impact_of` -/
def impactOf (file : Str) (line : ℤ) : Impact :=
  let seeds := seedsOf g repo file line
  let w := (List.range 2).foldl (fun w hop => ring g repo (hop + 1) w) ⟨[], [], seeds⟩
  { file := file
    line := if line = 0 then none else some line
    seeds := seeds
    direct := w.reachable.length
    dependents := w.reachable.mergeSort fun a b =>
      decide (a.hop < b.hop ∨
        (a.hop = b.hop ∧ (a.file < b.file ∨ (a.file = b.file ∧ a.line ≤ b.line)))) }

/-! ## What it is to report -/

/-- `x` calls `y`. -/
def Calls (x y : Str) : Prop := ∃ e ∈ g.edges, e.repo = repo ∧ e.relation = .calls ∧ e.source = x ∧
    e.target = y

/-- There is a path of `n` calls from a symbol to one of the seeds. -/
def Within (seeds : List Str) : ℕ → Str → Prop
  | 0, x => x ∈ seeds
  | n + 1, x => ∃ y, Calls g repo x y ∧ Within seeds n y

/-- The symbols with a path of one or two calls, each once and with the length of the shortest one.
-/
structure ImpactExact (report : Impact) : Prop where
  members : ∀ x, (∃ d ∈ report.dependents, d.symbol = x) ↔ ∃ n, (n = 1 ∨ n = 2) ∧
    Within g repo report.seeds n x
  once : (report.dependents.map Dependent.symbol).Nodup
  shortest : ∀ d ∈ report.dependents, 1 ≤ d.hop ∧ Within g repo report.seeds d.hop d.symbol ∧
    ∀ n, 1 ≤ n → Within g repo report.seeds n d.symbol → d.hop ≤ n
  direct : report.direct = (report.dependents.filter fun d => d.hop = 1).length

/-! ## One round -/

section

variable {g repo} {seeds fs : List Str} {hop : ℕ} {w : Walk} {x y : Str}

/-- The hop of a symbol, where it has been found. -/
def Walk.hopOf (w : Walk) (x : Str) : Option ℕ :=
  (Keyed.find Dependent.symbol x w.reachable).map Dependent.hop

theorem dependentOf_symbol (e : CodeEdge) : (dependentOf g repo hop e).symbol = e.source := by
  unfold dependentOf
  split <;> rfl

theorem dependentOf_hop (e : CodeEdge) : (dependentOf g repo hop e).hop = hop := by
  unfold dependentOf
  split <;> rfl

theorem mem_edgesTo {e : CodeEdge} : e ∈ g.edgesTo repo y .calls ↔ e ∈ g.edges ∧ e.repo = repo ∧
    e.target = y ∧ e.relation = .calls := by
  unfold CodeGraphStore.edgesTo
  rw [(List.mergeSort_perm _ _).mem_iff, List.mem_filter, decide_eq_true_eq]

/-- The callers of a symbol are the sources of the edges to it. -/
theorem calls_iff : Calls g repo x y ↔ x ∈ (g.edgesTo repo y .calls).map CodeEdge.source := by
  rw [List.mem_map]
  simp only [mem_edgesTo]
  constructor
  · rintro ⟨e, he, hrepo, hcalls, hsource, htarget⟩
    exact ⟨e, ⟨he, hrepo, htarget, hcalls⟩, hsource⟩
  · rintro ⟨e, ⟨he, hrepo, htarget, hcalls⟩, hsource⟩
    exact ⟨e, he, hrepo, hcalls, hsource, htarget⟩

/-- What a part of a round does: some symbols are found, whatever has been known of them, and
expanded. -/
structure Found (hop : ℕ) (p : Str → Prop) (w w' : Walk) : Prop where
  unique : Keyed.Unique Dependent.symbol w.reachable → Keyed.Unique Dependent.symbol w'.reachable
  hit : Keyed.Unique Dependent.symbol w.reachable → ∀ x, p x → w'.hopOf x = some hop
  miss : Keyed.Unique Dependent.symbol w.reachable → ∀ x, ¬ p x → w'.hopOf x = w.hopOf x
  next : ∀ x, x ∈ w'.next ↔ p x ∨ x ∈ w.next

theorem Found.refl (hop : ℕ) (w : Walk) : Found hop (fun _ => False) w w :=
  ⟨id, fun _ _ h => h.elim, fun _ _ _ => rfl, fun _ => by rw [false_or]⟩

theorem Found.trans {p q : Str → Prop} {w w' w'' : Walk} (h : Found hop p w w')
    (h' : Found hop q w' w'') : Found hop (fun x => p x ∨ q x) w w'' := by
  refine ⟨fun hu => h'.unique (h.unique hu), fun hu x hx => ?_, fun hu x hx => ?_, fun x => ?_⟩
  · by_cases hq : q x
    · exact h'.hit (h.unique hu) x hq
    · rw [h'.miss (h.unique hu) x hq]
      exact h.hit hu x (hx.resolve_right hq)
  · rw [h'.miss (h.unique hu) x fun hq => hx (.inr hq), h.miss hu x fun hp => hx (.inl hp)]
  · rw [h'.next, h.next, or_assoc, or_left_comm]

theorem Found.congr {p q : Str → Prop} {w w' : Walk} (h : Found hop p w w') (hpq : ∀ x, p x ↔ q x) :
    Found hop q w w' := by
  obtain rfl : p = q := funext fun x => propext (hpq x)
  exact h

theorem found_meet (hop : ℕ) (w : Walk) (e : CodeEdge) :
    Found hop (· = e.source) w (meet g repo hop w e) := by
  have hput : Keyed.Unique Dependent.symbol w.reachable → ∀ x, (meet g repo hop w e).hopOf x =
      if x = e.source then some hop else w.hopOf x := by
    intro hu x
    rw [Walk.hopOf, meet, Keyed.find_put hu, dependentOf_symbol]
    split
    · rw [Option.map_some, dependentOf_hop]
    · rfl
  refine ⟨Keyed.Unique.put, fun hu x hx => ?_, fun hu x hx => ?_, fun x => ?_⟩
  · rw [hput hu, if_pos hx]
  · rw [hput hu, if_neg hx]
  · rw [meet, List.mem_append, List.mem_singleton, or_comm]

theorem found_meets (g : CodeGraphStore) (repo : Str) (hop : ℕ) (w : Walk) (es : List CodeEdge) :
    Found hop (· ∈ es.map CodeEdge.source) w (es.foldl (meet g repo hop) w) ∧
    (es.foldl (meet g repo hop) w).seen = w.seen := by
  induction es generalizing w with
  | nil => exact ⟨(Found.refl hop w).congr fun x => by simp, rfl⟩
  | cons e es ih =>
    obtain ⟨hfound, hseen⟩ := ih (meet g repo hop w e)
    refine ⟨((found_meet hop w e).trans hfound).congr fun x => ?_, hseen⟩
    rw [List.map_cons, List.mem_cons]

/-- What is in the frontier is expanded once, where it has not been. -/
theorem found_expands (hop : ℕ) (w : Walk) (fs : List Str) :
    Found hop (fun x => ∃ y ∈ fs, y ∉ w.seen ∧ Calls g repo x y) w
    (fs.foldl (expand g repo hop) w) ∧
      ∀ y, y ∈ (fs.foldl (expand g repo hop) w).seen ↔ y ∈ fs ∨ y ∈ w.seen := by
  induction fs generalizing w with
  | nil => exact ⟨(Found.refl hop w).congr fun x => by simp, fun y => by simp⟩
  | cons f fs ih =>
    obtain ⟨hrest, hseen⟩ := ih (expand g repo hop w f)
    rw [List.foldl_cons]
    by_cases hf : f ∈ w.seen
    · have hskip : expand g repo hop w f = w := if_pos hf
      rw [hskip] at hrest hseen ⊢
      refine ⟨hrest.congr fun x => ?_, fun y => ?_⟩
      · rw [List.exists_mem_cons_iff, or_iff_right fun h => h.1 hf]
      · rw [hseen, List.mem_cons, or_assoc]
        exact ⟨.inr, fun h => h.elim (fun h => .inr (h ▸ hf)) id⟩
    · have hgo : expand g repo hop w f = (g.edgesTo repo f .calls).foldl (meet g repo hop)
        { w with seen := f :: w.seen } := if_neg hf
      obtain ⟨hfound, hkept⟩ :=
        found_meets g repo hop { w with seen := f :: w.seen } (g.edgesTo repo f .calls)
      rw [← hgo] at hfound hkept
      have hfirst : Found hop (Calls g repo · f) w (expand g repo hop w f) :=
        (show Found hop _ w _ from ⟨hfound.unique, hfound.hit, hfound.miss, hfound.next⟩).congr
          fun x => calls_iff.symm
      refine ⟨(hfirst.trans hrest).congr fun x => ?_, fun y => ?_⟩
      · rw [List.exists_mem_cons_iff, hkept]
        constructor
        · rintro (h | ⟨y, hy, hnew, h⟩)
          · exact .inl ⟨hf, h⟩
          · exact .inr ⟨y, hy, fun hmem => hnew (List.mem_cons_of_mem _ hmem), h⟩
        · rintro (⟨-, h⟩ | ⟨y, hy, hnew, h⟩)
          · exact .inl h
          · by_cases hyf : y = f
            · exact .inl (hyf ▸ h)
            · exact .inr ⟨y, hy, fun hmem => (List.mem_cons.mp hmem).elim hyf hnew, h⟩
      · rw [hseen, hkept]
        show y ∈ fs ∨ y ∈ f :: w.seen ↔ _
        rw [List.mem_cons, List.mem_cons, or_assoc, or_left_comm]

theorem found_ring (g : CodeGraphStore) (repo : Str) (hop : ℕ) (w : Walk) :
    Found hop (fun x => ∃ y ∈ w.next, y ∉ w.seen ∧ Calls g repo x y) { w with next := [] }
    (ring g repo hop w) ∧ ∀ y, y ∈ (ring g repo hop w).seen ↔ y ∈ w.next ∨ y ∈ w.seen :=
  found_expands hop { w with next := [] } w.next

/-- A symbol that calls a caller of a seed which is not a seed itself. -/
def Between (g : CodeGraphStore) (repo : Str) (seeds : List Str) (x : Str) : Prop :=
  ∃ y, Calls g repo x y ∧ Within g repo seeds 1 y ∧ y ∉ seeds

theorem within_one : Within g repo seeds 1 x ↔ ∃ y ∈ seeds, Calls g repo x y :=
  ⟨fun ⟨y, h, hy⟩ => ⟨y, hy, h⟩, fun ⟨y, hy, h⟩ => ⟨y, h, hy⟩⟩

/-- Through a seed, a second step leads nowhere new. -/
theorem within_two (h : Within g repo seeds 2 x) :
    Within g repo seeds 1 x ∨ Between g repo seeds x := by
  obtain ⟨y, hcalls, hy⟩ := h
  by_cases hseed : y ∈ seeds
  · exact .inl ⟨y, hcalls, hseed⟩
  · exact .inr ⟨y, hcalls, hy, hseed⟩

theorem Between.within (h : Between g repo seeds x) : Within g repo seeds 2 x := by
  obtain ⟨y, hcalls, hy, -⟩ := h
  exact ⟨y, hcalls, hy⟩

/-! ## Both rounds -/

/-- The walk at the end. -/
def walkOf (g : CodeGraphStore) (repo : Str) (seeds : List Str) : Walk :=
  ring g repo 2 (ring g repo 1 ⟨[], [], seeds⟩)

theorem unique_walkOf (g : CodeGraphStore) (repo : Str) (seeds : List Str) :
    Keyed.Unique Dependent.symbol (walkOf g repo seeds).reachable := by
  have hfirst := (found_ring g repo 1 ⟨[], [], seeds⟩).1
  have hsecond := (found_ring g repo 2 (ring g repo 1 ⟨[], [], seeds⟩)).1
  exact hsecond.unique (hfirst.unique Keyed.unique_nil)

/-- **The hop of a symbol**: what the second round finds is written over what the first one has
found. -/
theorem hopOf_walkOf (g : CodeGraphStore) (repo : Str) (seeds : List Str) (x : Str) :
    (Between g repo seeds x → (walkOf g repo seeds).hopOf x = some 2) ∧
    (¬ Between g repo seeds x → Within g repo seeds 1 x → (walkOf g repo seeds).hopOf x = some 1) ∧
    (¬ Between g repo seeds x → ¬ Within g repo seeds 1 x → (walkOf g repo seeds).hopOf x =
        none) := by
  obtain ⟨hfirst, hseen⟩ := found_ring g repo 1 ⟨[], [], seeds⟩
  obtain ⟨hsecond, -⟩ := found_ring g repo 2 (ring g repo 1 ⟨[], [], seeds⟩)
  have hfirst := hfirst.congr (q := Within g repo seeds 1) fun x => by simp [within_one]
  have hunique := hfirst.unique Keyed.unique_nil
  have hsecond := hsecond.congr (q := Between g repo seeds) fun x => by
    have hnext : ∀ y, y ∈ (ring g repo 1 ⟨[], [], seeds⟩).next ↔ Within g repo seeds 1 y :=
      fun y => by
      rw [hfirst.next]
      simp
    have hseen : ∀ y, y ∈ (ring g repo 1 ⟨[], [], seeds⟩).seen ↔ y ∈ seeds := fun y => by
      rw [hseen]
      simp
    simp only [hnext, hseen, Between]
    exact exists_congr fun y => by tauto
  refine ⟨hsecond.hit hunique x, fun hb hx => ?_, fun hb hx => ?_⟩
  · exact (hsecond.miss hunique x hb).trans (hfirst.hit Keyed.unique_nil x hx)
  · exact (hsecond.miss hunique x hb).trans (hfirst.miss Keyed.unique_nil x hx)

end

/-! ## The report -/

section

variable {g : CodeGraphStore} {repo file x : Str} {line : ℤ} {h : ℕ}

theorem dependents_perm : (impactOf g repo file line).dependents.Perm
    (walkOf g repo (impactOf g repo file line).seeds).reachable :=
  List.mergeSort_perm _ _

theorem direct_eq :
    (impactOf g repo file line).direct = (impactOf g repo file line).dependents.length :=
  dependents_perm.length_eq.symm

theorem once_impactOf : ((impactOf g repo file line).dependents.map Dependent.symbol).Nodup :=
  (dependents_perm.map _).nodup_iff.mpr (unique_walkOf g repo _)

theorem reported_iff : (∃ d ∈ (impactOf g repo file line).dependents, d.symbol = x ∧ d.hop = h) ↔
    (walkOf g repo (impactOf g repo file line).seeds).hopOf x = some h := by
  rw [Walk.hopOf, Option.map_eq_some_iff]
  simp only [Keyed.find_eq_some (unique_walkOf g repo _), dependents_perm.mem_iff, and_assoc]

/-- The hop that is reported for a symbol. -/
theorem hopOf_impactOf : (∃ d ∈ (impactOf g repo file line).dependents, d.symbol = x ∧ d.hop = h) ↔
    (Between g repo (impactOf g repo file line).seeds x ∧ h = 2) ∨
    (¬ Between g repo (impactOf g repo file line).seeds x ∧
      Within g repo (impactOf g repo file line).seeds 1 x ∧ h = 1) := by
  rw [reported_iff]
  obtain ⟨htwo, hone, hnone⟩ := hopOf_walkOf g repo (impactOf g repo file line).seeds x
  by_cases hb : Between g repo (impactOf g repo file line).seeds x
  · rw [htwo hb]
    simp [hb, eq_comm]
  · by_cases hx : Within g repo (impactOf g repo file line).seeds 1 x
    · rw [hone hb hx]
      simp [hb, hx, eq_comm]
    · rw [hnone hb hx]
      simp [hb, hx]

theorem members_impactOf : (∃ d ∈ (impactOf g repo file line).dependents, d.symbol = x) ↔
    ∃ n, (n = 1 ∨ n = 2) ∧ Within g repo (impactOf g repo file line).seeds n x := by
  constructor
  · rintro ⟨d, hd, hx⟩
    rcases hopOf_impactOf.mp ⟨d, hd, hx, rfl⟩ with ⟨hb, -⟩ | ⟨-, hone, -⟩
    · exact ⟨2, .inr rfl, hb.within⟩
    · exact ⟨1, .inl rfl, hone⟩
  · intro hn
    have hor : Between g repo (impactOf g repo file line).seeds x ∨
        Within g repo (impactOf g repo file line).seeds 1 x := by
      rcases hn with ⟨_, rfl | rfl, hwithin⟩
      · exact .inr hwithin
      · exact (within_two hwithin).symm
    by_cases hb : Between g repo (impactOf g repo file line).seeds x
    · obtain ⟨d, hd, hx, -⟩ := hopOf_impactOf.mpr (.inl ⟨hb, rfl⟩)
      exact ⟨d, hd, hx⟩
    · obtain ⟨d, hd, hx, -⟩ := hopOf_impactOf.mpr (.inr ⟨hb, hor.resolve_left hb, rfl⟩)
      exact ⟨d, hd, hx⟩

/-- The hops are the lengths of the shortest paths where no direct caller also calls another one. -/
theorem shortest_iff : (∀ d ∈ (impactOf g repo file line).dependents, 1 ≤ d.hop ∧
      Within g repo (impactOf g repo file line).seeds d.hop d.symbol ∧
      ∀ n, 1 ≤ n → Within g repo (impactOf g repo file line).seeds n d.symbol → d.hop ≤ n) ↔
    ∀ x, Within g repo (impactOf g repo file line).seeds 1 x →
        ¬ Between g repo (impactOf g repo file line).seeds x := by
  constructor
  · intro hshort x hx hb
    obtain ⟨d, hd, rfl, htwo⟩ := hopOf_impactOf.mpr (.inl ⟨hb, rfl⟩)
    have hle := (hshort d hd).2.2 1 le_rfl hx
    omega
  · intro hno d hd
    rcases hopOf_impactOf.mp ⟨d, hd, rfl, rfl⟩ with ⟨hb, hhop⟩ | ⟨hb, hone, hhop⟩
    · rw [hhop]
      refine ⟨by omega, hb.within, fun n hn hwithin => ?_⟩
      by_contra hlt
      obtain rfl : n = 1 := by omega
      exact hno _ hwithin hb
    · rw [hhop]
      exact ⟨le_rfl, hone, fun n hn _ => hn⟩

/-- All of the report counts as direct. -/
theorem direct_iff : (impactOf g repo file line).direct =
    ((impactOf g repo file line).dependents.filter fun d => d.hop = 1).length ↔
    ∀ x, ¬ Between g repo (impactOf g repo file line).seeds x := by
  rw [direct_eq, eq_comm, List.length_filter_eq_length_iff]
  simp only [decide_eq_true_eq]
  constructor
  · intro hone x hb
    obtain ⟨d, hd, -, htwo⟩ := hopOf_impactOf.mpr (.inl ⟨hb, rfl⟩)
    rw [hone d hd] at htwo
    omega
  · intro hno d hd
    rcases hopOf_impactOf.mp ⟨d, hd, rfl, rfl⟩ with ⟨hb, -⟩ | ⟨-, -, hhop⟩
    · exact absurd hb (hno _)
    · exact hhop

theorem impactExact_iff : ImpactExact g repo (impactOf g repo file line) ↔
    ∀ x, ¬ Between g repo (impactOf g repo file line).seeds x := by
  constructor
  · intro hexact
    exact direct_iff.mp hexact.direct
  · intro hno
    exact ⟨fun x => members_impactOf, once_impactOf, shortest_iff.mpr fun x _ => hno x,
      direct_iff.mpr hno⟩

/-- The report has the right symbols, each once. It is exact iff no symbol calls a caller of a seed
that is not a seed itself. -/
theorem impact_law (g : CodeGraphStore) (repo file : Str) (line : ℤ) :
    (∀ x, (∃ d ∈ (impactOf g repo file line).dependents, d.symbol = x) ↔
      ∃ n, (n = 1 ∨ n = 2) ∧ Within g repo (impactOf g repo file line).seeds n x) ∧
    ((impactOf g repo file line).dependents.map Dependent.symbol).Nodup ∧
    (ImpactExact g repo (impactOf g repo file line) ↔
      ∀ x y, Calls g repo x y → (∃ z ∈ (impactOf g repo file line).seeds, Calls g repo y z) →
        y ∈ (impactOf g repo file line).seeds) := by
  refine ⟨fun x => members_impactOf, once_impactOf, impactExact_iff.trans ?_⟩
  simp only [Between, within_one, not_exists, not_and, not_not]

/-- A function that calls the one of the file, and itself. -/
def recursive : CodeGraphStore :=
  { nodes := [⟨lit "repo", .function, lit "engine.compute", lit "engine.py", 3⟩,
      ⟨lit "repo", .function, lit "main.run", lit "main.py", 1⟩]
    edges := [⟨lit "repo", .calls, lit "main.run", lit "engine.compute", lit "main.py", 2⟩,
      ⟨lit "repo", .calls, lit "main.run", lit "main.run", lit "main.py", 4⟩] }

theorem seeds_recursive :
    (impactOf recursive (lit "repo") (lit "engine.py") 0).seeds = [lit "engine.compute"] := by
  have hnodes : recursive.nodesForFile (lit "repo") (lit "engine.py") =
      [⟨lit "repo", .function, lit "engine.compute", lit "engine.py", 3⟩] :=
      List.mergeSort_singleton _
  show seedsOf recursive (lit "repo") (lit "engine.py") 0 = _
  rw [seedsOf, seedNodes, hnodes]
  rfl

/-- The direct caller is reported with two steps. -/
theorem direct_caller_demoted :
    ¬ ImpactExact recursive (lit "repo") (impactOf recursive (lit "repo") (lit "engine.py") 0) := by
  rw [impactExact_iff, seeds_recursive]
  have hself : Calls recursive (lit "repo") (lit "main.run") (lit "main.run") :=
    ⟨_, List.mem_cons_of_mem _ List.mem_cons_self, rfl, rfl, rfl, rfl⟩
  have hcompute : Calls recursive (lit "repo") (lit "main.run") (lit "engine.compute") :=
    ⟨_, List.mem_cons_self, rfl, rfl, rfl, rfl⟩
  exact fun hno => hno _ ⟨_, hself, ⟨_, hcompute, List.mem_singleton_self _⟩, by decide⟩

end

end Codegraph
