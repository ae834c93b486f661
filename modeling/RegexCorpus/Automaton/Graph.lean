import RegexCorpus.Text.Digit
import RegexCorpus.Value.Access

/-!
# Automata as graphs

An automaton without empty moves comes as a text: a line of sources, a line of targets, and one line
`u v label` for each edge.
-/

namespace RegexCorpus

/-- An edge from a node to another, with the characters that it takes. -/
structure Edge where
  source : Int
  target : Int
  label : String
  deriving DecidableEq, Repr

/-- A directed graph: its nodes, and at most one edge from a node to another. -/
structure Graph where
  nodes : List Int := []
  edges : List Edge := []
  deriving DecidableEq, Repr

/-- A graph with the nodes at which words start and end. -/
structure Automaton where
  sources : List Int
  targets : List Int
  graph : Graph
  deriving DecidableEq, Repr

namespace Edge

/-- The two edges join the same nodes in the same direction. -/
def parallel (e f : Edge) : Bool := e.source == f.source && e.target == f.target

end Edge

namespace Graph

def addNode (n : Int) (g : Graph) : Graph :=
  if g.nodes.contains n then g else { g with nodes := g.nodes ++ [n] }

/-- An edge added with its two nodes; it replaces an edge between them. -/
def addEdge (g : Graph) (e : Edge) : Graph :=
  let g := (g.addNode e.source).addNode e.target
  if g.edges.any e.parallel then
    { g with edges := g.edges.map fun f => if e.parallel f then e else f }
  else { g with edges := g.edges ++ [e] }

/-- The graph of a list of edges, of which later ones replace earlier ones. -/
def ofEdges (es : List Edge) : Graph := es.foldl addEdge {}

def sortedNodes (g : Graph) : List Int := g.nodes.mergeSort fun m n => decide (m ≤ n)

/-- The edges in order of their sources, then of their targets. -/
def sortedEdges (g : Graph) : List Edge :=
  g.edges.mergeSort fun e f =>
    decide (e.source < f.source) || (e.source == f.source && decide (e.target ≤ f.target))

/-- The nodes that an edge leads to from a node. -/
def successors (g : Graph) (n : Int) : List Int :=
  g.edges.filterMap fun e => if e.source == n then some e.target else none

/-- The label of the edge between two nodes. -/
def label (g : Graph) (u v : Int) : String :=
  ((g.edges.find? fun e => e.source == u && e.target == v).map (·.label)).getD ""

/-- The share of the possible edges that are there; no node gives none. -/
def density (g : Graph) : Option Double :=
  if g.nodes.isEmpty then none
  else some (Double.ofQuotient g.edges.length (g.nodes.length * g.nodes.length))

end Graph

namespace Automaton

def node (s : String) : Outcome Int :=
  match Text.readInt? s with
  | some n => .ok n
  | none => .error (.badValue "")

def edge (line : String) : Outcome Edge := do
  let words := (Text.words line.toList).map String.ofList
  let source ← node (← Value.itemAt words 0)
  let target ← node (← Value.itemAt words 1)
  return { source, target, label := Text.join " " (words.drop 2) }

/-- The automaton of a text. Without sources or without targets there is none. -/
def ofText (s : String) : Outcome (Option Automaton) := do
  let lines := Text.splitOn '\n' s
  let sources ← Value.itemAt lines 0
  let targets ← Value.itemAt lines 1
  if sources == "" || targets == "" then return none
  let sources ← (Text.splitOn ' ' sources).mapM node
  let targets ← (Text.splitOn ' ' targets).mapM node
  return some { sources, targets, graph := .ofEdges (← (lines.drop 2).mapM edge) }

end Automaton
end RegexCorpus
