import Msb.Infra.Paths
import Msb.Infra.Text

/-!
# The graph of the packages

`_detect_cycles`, `_critical_path` and `_longest_simple_path` of `plei/dependency/graph.py`, and
what `build_dependency_graph` makes of them. A set is the list of its elements in the order in which
it is iterated.

The recursions have a bound on their depth, and the loop over the queue one on its rounds. One more
than there are packages is enough for all of them.

* `detectCycles`, `criticalPath`, `longestSimplePath`
* `criticalPathOf` — the path that goes into the report
-/

namespace Plei

open Py

/-- A set of packages and the dict of what each of them imports. -/
structure PackageGraph where
  nodes : List Str
  adj : List (Str × List Str)
  nodup_nodes : nodes.Nodup
  unique_keys : (adj.map Prod.fst).Nodup
  keys_nodes : ∀ p ∈ adj, p.1 ∈ nodes
  nodup_targets : ∀ p ∈ adj, p.2.Nodup

namespace PackageGraph

variable (g : PackageGraph)

/-- `adj.get(v, set())` -/
def adjOf (v : Str) : List Str := ((g.adj.find? fun p => p.1 = v).map Prod.snd).getD []

/-- `sorted` -/
def sorted (xs : List Str) : List Str := xs.insertionSort (· ≤ ·)

/-! ## `_detect_cycles` -/

inductive Color where
  | white
  | gray
  | black
  deriving DecidableEq

/-- `color`, `stack` and `cycles`. -/
structure Search where
  color : Str → Color
  stack : List Str
  cycles : List (List Str)

/-- `dfs` -/
def visit : ℕ → Str → Search → Search
  | 0, _, s => s
  | fuel + 1, v, s =>
    match s.color v with
    | .black => s
    | .gray => { s with cycles := s.cycles ++ [s.stack.drop (s.stack.idxOf v)] }
    | .white =>
      let pushed := { s with color := Function.update s.color v .gray, stack := s.stack ++ [v] }
      let done :=
        (sorted (g.adjOf v)).foldl (fun s w => if w ∈ g.nodes then visit fuel w s else s) pushed
      { done with stack := done.stack.dropLast, color := Function.update done.color v .black }

/-- `_detect_cycles`, with a bound on the depth. -/
def detectCyclesWith (fuel : ℕ) : List (List Str) :=
  ((sorted g.nodes).foldl (fun s v => if s.color v = .white then g.visit fuel v s else s)
    ⟨fun _ => .white, [], []⟩).cycles

/-- `_detect_cycles` -/
def detectCycles : List (List Str) := g.detectCyclesWith (g.nodes.length + 1)

/-! ## `_critical_path` -/

/-- `in_degree`, `queue` and `topo_order`. -/
structure Kahn where
  inDegree : Str → ℤ
  queue : List Str
  topoOrder : List Str

/-- One neighbor of a package that is taken. -/
def release (k : Kahn) (w : Str) : Kahn :=
  if w ∈ g.nodes then
    let inDegree := Function.update k.inDegree w (k.inDegree w - 1)
    { k with inDegree := inDegree, queue := if inDegree w = 0 then k.queue ++ [w] else k.queue }
  else k

/-- `while queue` -/
def drain : ℕ → Kahn → Kahn
  | 0, k => k
  | fuel + 1, k =>
    match k.queue with
    | [] => k
    | v :: rest =>
      drain fuel ((g.adjOf v).foldl g.release
        { k with queue := rest, topoOrder := k.topoOrder ++ [v] })

/-- The counts of the edges to each package, and those without any. -/
def kahnInit : Kahn :=
  let inDegree := fun n => ((g.adj.filter fun p => n ∈ p.2).length : ℤ)
  ⟨inDegree, g.nodes.filter fun n => inDegree n = 0, []⟩

/-- `dist` and `prev`. -/
structure Longest where
  dist : Str → ℕ
  prev : Str → Option Str

/-- One edge from `v`. -/
def relax (v : Str) (d : Longest) (w : Str) : Longest :=
  if w ∈ g.nodes ∧ d.dist v + 1 > d.dist w then
    ⟨Function.update d.dist w (d.dist v + 1), Function.update d.prev w (some v)⟩
  else d

/-- The longest paths, along an order of the packages. -/
def longestAlong (order : List Str) : Longest :=
  order.foldl (fun d v => (g.adjOf v).foldl (g.relax v) d) ⟨fun _ => 0, fun _ => none⟩

/-- `max(dist, key=...)`: the first of the farthest. -/
def farthest (d : Longest) : Option Str :=
  match g.nodes with
  | [] => none
  | n :: rest => some (rest.foldl (fun best m => if d.dist best < d.dist m then m else best) n)

/-- `while current is not None and current in prev` -/
def trace (d : Longest) : ℕ → Option Str → List Str
  | 0, _ => []
  | _, none => []
  | fuel + 1, some v => if v ∈ g.nodes then v :: trace d fuel (d.prev v) else []

/-- `_critical_path`, with a bound on the loops. -/
def criticalPathWith (fuel : ℕ) : List Str × ℕ :=
  let d := g.longestAlong (g.drain fuel g.kahnInit).topoOrder
  match g.farthest d with
  | none => ([], 0)
  | some v => ((g.trace d fuel (some v)).reverse, d.dist v)

/-- `_critical_path` -/
def criticalPath : List Str × ℕ := g.criticalPathWith (g.nodes.length + 1)

/-! ## `_longest_simple_path` -/

/-- `best_path` and `best_len`. -/
structure Best where
  path : List Str
  len : ℕ

/-- `visited` and `path`, which the calls share, and the best. -/
structure Walk where
  visited : List Str
  path : List Str
  best : Best

/-- `dfs` -/
def extend : ℕ → Str → Walk → Walk
  | 0, _, s => s
  | fuel + 1, v, s =>
    let path := s.path ++ [v]
    let best := if path.length > s.best.len then ⟨path, path.length⟩ else s.best
    let done := (g.adjOf v).foldl
      (fun s w => if w ∉ s.visited ∧ w ∈ g.nodes then extend fuel w s else s)
      ⟨v :: s.visited, path, best⟩
    { done with visited := done.visited.erase v, path := done.path.dropLast }

/-- `_longest_simple_path`, with a bound on the depth. -/
def longestSimplePathWith (fuel : ℕ) (start : Str) : List Str × ℕ :=
  let best := (g.extend fuel start ⟨[], [], ⟨[], 0⟩⟩).best
  (best.path, best.len - 1)

/-- `_longest_simple_path` -/
def longestSimplePath (start : Str) : List Str × ℕ :=
  g.longestSimplePathWith (g.nodes.length + 1) start

/-! ## `build_dependency_graph` -/

/-- `graph.critical_path` and its length. -/
def criticalPathOf : List Str × ℕ :=
  if g.detectCycles = [] then g.criticalPath
  else g.nodes.foldl (fun best start => if (g.longestSimplePath start).2 > best.2
    then g.longestSimplePath start else best) ([], 0)

end PackageGraph

end Plei
