import RegexCorpus.Automaton.Graph
import Mathlib.Data.Finset.Prod
import Mathlib.Data.List.Induction

/-!
# Graphs of edge lists

A list of edges is turned into a graph edge by edge. The graph has the ends of the edges as its
nodes, and of all edges between the same two nodes it keeps the last.
-/

namespace RegexCorpus
open List

/-- The two nodes that an edge joins. -/
def Edge.ends (e : Edge) : ℤ × ℤ := (e.source, e.target)

theorem Edge.parallel_iff {e f : Edge} : e.parallel f = true ↔ e.ends = f.ends := by
  simp [parallel, ends]

namespace Graph

variable {g : Graph} {e f : Edge} {es : List Edge} {n : ℤ}

/-- A directed graph: every node is there once, at most one edge leads from one node to another, and
both nodes of an edge are there. -/
structure WellFormed (g : Graph) : Prop where
  nodes : g.nodes.Nodup
  edges : (g.edges.map Edge.ends).Nodup
  source : ∀ e ∈ g.edges, e.source ∈ g.nodes
  target : ∀ e ∈ g.edges, e.target ∈ g.nodes

/-- The edge stands in the list, and none behind it joins the same nodes. -/
def IsLast (es : List Edge) (f : Edge) : Prop :=
  ∃ before after, es = before ++ f :: after ∧ ∀ e ∈ after, e.ends ≠ f.ends

/-- The graph has the ends of the listed edges as its nodes, and one edge for each pair that they
join, the last one listed. -/
structure Gathers (g : Graph) (es : List Edge) : Prop where
  nodes : g.nodes.Nodup
  mem_nodes : ∀ n, n ∈ g.nodes ↔ ∃ e ∈ es, n = e.source ∨ n = e.target
  ends : (g.edges.map Edge.ends).Nodup
  mem_ends : ∀ p, p ∈ g.edges.map Edge.ends ↔ p ∈ es.map Edge.ends
  mem_edges : ∀ f, f ∈ g.edges ↔ IsLast es f

/-! ### One node and one edge more -/

@[simp] theorem edges_addNode (n : ℤ) (g : Graph) : (g.addNode n).edges = g.edges := by
  unfold addNode
  split_ifs <;> rfl

@[simp] theorem mem_nodes_addNode {m : ℤ} : m ∈ (g.addNode n).nodes ↔ m ∈ g.nodes ∨ m = n := by
  unfold addNode
  split_ifs with h
  · rw [contains_iff_mem] at h
    constructor
    · exact .inl
    · rintro (hm | rfl)
      · exact hm
      · exact h
  · simp

theorem nodup_nodes_addNode (h : g.nodes.Nodup) (n : ℤ) : (g.addNode n).nodes.Nodup := by
  unfold addNode
  split_ifs with hn
  · exact h
  · rw [contains_iff_mem] at hn
    exact nodup_append.mpr ⟨h, nodup_singleton n, by grind⟩

theorem nodes_addEdge (g : Graph) (e : Edge) :
    (g.addEdge e).nodes = ((g.addNode e.source).addNode e.target).nodes := by
  unfold addEdge
  dsimp only
  split_ifs <;> rfl

@[simp] theorem mem_nodes_addEdge :
    n ∈ (g.addEdge e).nodes ↔ n ∈ g.nodes ∨ n = e.source ∨ n = e.target := by
  rw [nodes_addEdge, mem_nodes_addNode, mem_nodes_addNode, or_assoc]

theorem any_parallel_iff : g.edges.any e.parallel = true ↔ e.ends ∈ g.edges.map Edge.ends := by
  simp only [any_eq_true, Edge.parallel_iff, mem_map, @eq_comm _ e.ends]

/-- An edge takes the place of the one between its nodes, or comes last. -/
theorem edges_addEdge (g : Graph) (e : Edge) :
    (g.addEdge e).edges =
      if e.ends ∈ g.edges.map Edge.ends then
        g.edges.map fun f => if e.parallel f then e else f
      else g.edges ++ [e] := by
  unfold addEdge
  dsimp only
  simp only [edges_addNode, any_parallel_iff]
  split_ifs <;> simp

theorem ends_addEdge (g : Graph) (e : Edge) :
    (g.addEdge e).edges.map Edge.ends =
      if e.ends ∈ g.edges.map Edge.ends then g.edges.map Edge.ends
      else g.edges.map Edge.ends ++ [e.ends] := by
  rw [edges_addEdge]
  split_ifs
  · rw [map_map]
    refine map_congr_left fun f _ => ?_
    rw [Function.comp_apply]
    split_ifs with hf
    · exact Edge.parallel_iff.mp hf
    · rfl
  · rw [map_append, map_singleton]

theorem mem_edges_addEdge : f ∈ (g.addEdge e).edges ↔ f = e ∨ f ∈ g.edges ∧ f.ends ≠ e.ends := by
  rw [edges_addEdge]
  split_ifs with h
  · obtain ⟨old, hold, hends⟩ := mem_map.mp h
    simp only [mem_map]
    constructor
    · rintro ⟨x, hx, rfl⟩
      split_ifs with hpar
      · exact .inl rfl
      · exact .inr ⟨hx, fun heq => hpar (Edge.parallel_iff.mpr heq.symm)⟩
    · rintro (rfl | ⟨hf, hne⟩)
      · exact ⟨old, hold, if_pos (Edge.parallel_iff.mpr hends.symm)⟩
      · exact ⟨f, hf, if_neg fun hpar => hne (Edge.parallel_iff.mp hpar).symm⟩
  · rw [mem_append, mem_singleton, or_comm]
    refine or_congr_right ⟨fun hf => ⟨hf, fun heq => h ?_⟩, And.left⟩
    exact heq ▸ mem_map_of_mem hf

/-! ### All edges of a list -/

theorem ofEdges_concat (es : List Edge) (e : Edge) :
    ofEdges (es ++ [e]) = (ofEdges es).addEdge e := by
  rw [ofEdges, foldl_concat]
  rfl

theorem isLast_concat : IsLast (es ++ [e]) f ↔ f = e ∨ IsLast es f ∧ f.ends ≠ e.ends := by
  constructor
  · rintro ⟨before, after, heq, hafter⟩
    rcases after.eq_nil_or_concat' with rfl | ⟨after, last, rfl⟩
    · exact .inl (append_singleton_inj.mp heq).2.symm
    · rw [← cons_append, ← append_assoc, append_singleton_inj] at heq
      obtain ⟨rfl, rfl⟩ := heq
      exact .inr ⟨⟨before, after, rfl, fun x hx => hafter x (mem_append_left _ hx)⟩,
        (hafter e (by simp)).symm⟩
  · rintro (rfl | ⟨⟨before, after, rfl, hafter⟩, hne⟩)
    · exact ⟨es, [], rfl, by simp⟩
    · refine ⟨before, after ++ [e], by simp, fun x hx => ?_⟩
      rcases mem_append.mp hx with hx | hx
      · exact hafter x hx
      · rw [mem_singleton.mp hx]
        exact hne.symm

theorem Gathers.addEdge (h : g.Gathers es) (e : Edge) : (g.addEdge e).Gathers (es ++ [e]) where
  nodes := by
    rw [nodes_addEdge]
    exact nodup_nodes_addNode (nodup_nodes_addNode h.nodes _) _
  mem_nodes n := by
    rw [mem_nodes_addEdge, h.mem_nodes]
    simp only [mem_append, mem_singleton, or_and_right, exists_or, exists_eq_left]
  ends := by
    rw [ends_addEdge]
    split_ifs with he
    · exact h.ends
    · exact nodup_append.mpr ⟨h.ends, nodup_singleton _, by grind⟩
  mem_ends p := by
    rw [ends_addEdge, map_append, map_singleton, mem_append, ← h.mem_ends]
    split_ifs with he
    · constructor
      · exact .inl
      · rintro (hp | hp)
        · exact hp
        · rwa [mem_singleton.mp hp]
    · exact mem_append
  mem_edges f := by rw [mem_edges_addEdge, isLast_concat, h.mem_edges]

theorem gathers_empty : Gathers {} [] where
  nodes := nodup_nil
  mem_nodes := by simp
  ends := nodup_nil
  mem_ends := by simp
  mem_edges f := by
    constructor
    · intro h
      exact absurd h not_mem_nil
    · rintro ⟨before, after, h, -⟩
      exact absurd h.symm (by simp)

theorem gathers_ofEdges (es : List Edge) : (ofEdges es).Gathers es := by
  induction es using List.reverseRecOn with
  | nil => exact gathers_empty
  | append_singleton es e ih =>
    rw [ofEdges_concat]
    exact ih.addEdge e

theorem Gathers.wellFormed (h : g.Gathers es) : g.WellFormed where
  nodes := h.nodes
  edges := h.ends
  source f hf := by
    obtain ⟨before, after, rfl, -⟩ := (h.mem_edges f).mp hf
    exact (h.mem_nodes _).mpr ⟨f, by simp, .inl rfl⟩
  target f hf := by
    obtain ⟨before, after, rfl, -⟩ := (h.mem_edges f).mp hf
    exact (h.mem_nodes _).mpr ⟨f, by simp, .inr rfl⟩

/-! ### Numbers of nodes and edges -/

def pairs (es : List Edge) : Finset (ℤ × ℤ) := (es.map Edge.ends).toFinset

def endpoints (es : List Edge) : Finset ℤ := (es.flatMap fun e => [e.source, e.target]).toFinset

theorem Gathers.length_edges (h : g.Gathers es) : g.edges.length = (pairs es).card := by
  have hpairs : (g.edges.map Edge.ends).toFinset = pairs es := by
    ext p
    rw [pairs, mem_toFinset, mem_toFinset, h.mem_ends]
  rw [← hpairs, toFinset_card_of_nodup h.ends, length_map]

theorem Gathers.length_nodes (h : g.Gathers es) : g.nodes.length = (endpoints es).card := by
  have hends : g.nodes.toFinset = endpoints es := by
    ext n
    simp [endpoints, h.mem_nodes]
  rw [← hends, toFinset_card_of_nodup h.nodes]

theorem WellFormed.length_edges_le (h : g.WellFormed) :
    g.edges.length ≤ g.nodes.length * g.nodes.length := by
  have hsub : (g.edges.map Edge.ends).toFinset ⊆ g.nodes.toFinset ×ˢ g.nodes.toFinset := by
    intro p hp
    obtain ⟨f, hf, rfl⟩ := mem_map.mp (mem_toFinset.mp hp)
    rw [Finset.mem_product, mem_toFinset, mem_toFinset]
    exact ⟨h.source f hf, h.target f hf⟩
  have hcard := Finset.card_le_card hsub
  rwa [Finset.card_product, toFinset_card_of_nodup h.edges, length_map,
    toFinset_card_of_nodup h.nodes] at hcard

end Graph
end RegexCorpus
