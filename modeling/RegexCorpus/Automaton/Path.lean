import RegexCorpus.Automaton.Graph

/-!
# Simple paths

A simple path enters no node twice. `simplePaths` lists them all, the shorter ones first;
`firstPaths` lists the first so many without looking for the others. `search` is what the paths of
an automaton are counted with: it lists the first paths between two nodes, and fails when one of
them is no node of the graph or no path joins them.
-/

namespace RegexCorpus.Graph

/-- The simple paths with `n` edges from a node to the target that enter no node of `seen`. -/
def pathsOfLength (g : Graph) (target : Int) : Nat → List Int → Int → List (List Int)
  | 0, _, v => if v == target then [[v]] else []
  | n + 1, seen, v =>
    if v == target then []
    else ((g.successors v).filter fun w => !(v :: seen).contains w).flatMap fun w =>
      (g.pathsOfLength target n (v :: seen) w).map (v :: ·)

/-- The simple paths between two nodes, the shorter ones first. From a node to itself there is just
the path without edges. -/
def simplePaths (g : Graph) (source target : Int) : List (List Int) :=
  (List.range g.nodes.length).flatMap fun n => g.pathsOfLength target n [] source

/-! ### The first few paths -/

/-- The nodes within `n` steps of those given, avoiding the nodes of `seen`. -/
def within (g : Graph) (seen : List Int) : Nat → List Int → List Int
  | 0, vs => vs
  | n + 1, vs =>
    let more := ((vs.flatMap g.successors).eraseDups).filter fun w =>
      !vs.contains w && !seen.contains w
    if more.isEmpty then vs else g.within seen n (vs ++ more)

/-- The paths of one length added to those found, until there are `most`. `trail` is the path so far,
backwards. A node from which the target is too far away is left at once. -/
def collect (g : Graph) (target : Int) (most : Nat) :
    Nat → List Int → Int → List (List Int) → List (List Int)
  | 0, trail, v, found =>
    if found.length < most && v == target then found ++ [(v :: trail).reverse] else found
  | n + 1, trail, v, found =>
    if v == target || most ≤ found.length then found
    else if !(g.within trail (n + 1) [v]).contains target then found
    else ((g.successors v).filter fun w => !(v :: trail).contains w).foldl
      (fun found w => g.collect target most n (v :: trail) w found) found

/-- The first `most` simple paths between two nodes. -/
def firstPaths (g : Graph) (source target : Int) (most : Nat) : List (List Int) :=
  (List.range g.nodes.length).foldl
    (fun found n => g.collect target most n [] source found) []

/-- Edges lead from the one node to the other. -/
def connected (g : Graph) (source target : Int) : Bool :=
  (g.within [] g.nodes.length [source]).contains target

/-- The first `most` simple paths between two nodes, if there is a path. -/
def search (g : Graph) (source target : Int) (most : Nat) : Outcome (List (List Int)) :=
  if !g.nodes.contains source || !g.nodes.contains target then .error .nodeNotFound
  else if !g.connected source target then .error .noPath
  else .ok (g.firstPaths source target most)

end RegexCorpus.Graph
