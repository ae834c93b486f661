import RegexCorpus.Automaton.Path
import RegexCorpus.Proofs.Automaton.Graph
import Mathlib.Data.Set.Card

/-!
# Simple paths are listed once

The simple paths between two nodes are listed by length, and found again by a search that stops
when it has enough of them and leaves a node from which the target is too far away.

`Graph.SearchedBy` is what a search has to do for the paths to be counted with it: it lists each path
once, in any order, and fails for nodes that no path joins. `Graph.search` does.
-/

namespace RegexCorpus.Graph
open List

variable {g : Graph} {s t u v w : ℤ} {p q seen : List ℤ}
variable {n : ℕ}

def Adj (g : Graph) (u v : ℤ) : Prop := ∃ e ∈ g.edges, e.source = u ∧ e.target = v

/-- The nodes of a walk along edges that enters no node twice. -/
structure IsSimplePath (g : Graph) (s t : ℤ) (p : List ℤ) : Prop where
  first : p.head? = some s
  last : p.getLast? = some t
  along : p.IsChain g.Adj
  once : p.Nodup

theorem isSimplePath_singleton : g.IsSimplePath s t [v] ↔ v = s ∧ v = t := by
  constructor
  · intro h
    exact ⟨Option.some.inj h.first, Option.some.inj h.last⟩
  · rintro ⟨rfl, rfl⟩
    exact ⟨rfl, rfl, isChain_singleton v, nodup_singleton v⟩

/-- A path goes on with a path from its next node, which does not come back. -/
theorem isSimplePath_cons :
    g.IsSimplePath s t (v :: w :: q) ↔
      v = s ∧ g.Adj v w ∧ v ∉ w :: q ∧ g.IsSimplePath w t (w :: q) := by
  constructor
  · rintro ⟨hfirst, hlast, halong, honce⟩
    rw [isChain_cons_cons] at halong
    rw [nodup_cons] at honce
    rw [getLast?_cons_cons] at hlast
    exact ⟨Option.some.inj hfirst, halong.1, honce.1, rfl, hlast, halong.2, honce.2⟩
  · rintro ⟨rfl, hadj, hnot, -, hlast, halong, honce⟩
    exact ⟨rfl, by rwa [getLast?_cons_cons], isChain_cons_cons.mpr ⟨hadj, halong⟩,
      nodup_cons.mpr ⟨hnot, honce⟩⟩

/-! ### Steps -/

theorem mem_successors : w ∈ g.successors v ↔ g.Adj v w := by
  simp [successors, Adj]

theorem nodup_successors (hg : g.WellFormed) (v : ℤ) : (g.successors v).Nodup := by
  refine List.Pairwise.filterMap _ (fun e f hne w hw w' hw' hww => hne ?_)
    (pairwise_map.mp hg.edges)
  simp only [Option.ite_none_right_eq_some, beq_iff_eq, Option.some.injEq] at hw hw'
  rw [Edge.ends, Edge.ends, hw.1, hw'.1, hw.2, hw'.2, hww]

/-! ### All simple paths -/

theorem mem_pathsOfLength_zero : p ∈ g.pathsOfLength t 0 seen v ↔ v = t ∧ p = [v] := by
  rw [pathsOfLength]
  by_cases hv : v = t <;> simp [hv]

theorem mem_pathsOfLength_succ :
    p ∈ g.pathsOfLength t (n + 1) seen v ↔
      v ≠ t ∧ ∃ w q, g.Adj v w ∧ w ∉ v :: seen ∧ q ∈ g.pathsOfLength t n (v :: seen) w ∧
        p = v :: q := by
  rw [pathsOfLength]
  by_cases hv : v = t
  · simp [hv]
  · rw [if_neg (by simpa using hv)]
    simp only [mem_flatMap, mem_filter, mem_map, mem_successors,
      Bool.not_eq_true', contains_eq_mem, decide_eq_false_iff_not, hv, ne_eq,
      not_false_eq_true, true_and]
    constructor
    · rintro ⟨w, ⟨hadj, hw⟩, q, hq, rfl⟩
      exact ⟨w, q, hadj, hw, hq, rfl⟩
    · rintro ⟨w, q, hadj, hw, hq, rfl⟩
      exact ⟨w, ⟨hadj, hw⟩, q, hq, rfl⟩

theorem mem_pathsOfLength :
    p ∈ g.pathsOfLength t n seen v ↔
      p.length = n + 1 ∧ g.IsSimplePath v t p ∧ ∀ w ∈ p.tail, w ∉ seen := by
  induction n generalizing seen v p with
  | zero =>
    rw [mem_pathsOfLength_zero]
    constructor
    · rintro ⟨rfl, rfl⟩
      exact ⟨rfl, isSimplePath_singleton.mpr ⟨rfl, rfl⟩, by simp⟩
    · rintro ⟨hlength, hpath, -⟩
      obtain ⟨x, rfl⟩ := length_eq_one_iff.mp hlength
      obtain ⟨rfl, rfl⟩ := isSimplePath_singleton.mp hpath
      exact ⟨rfl, rfl⟩
  | succ n ih =>
    rw [mem_pathsOfLength_succ]
    constructor
    · rintro ⟨-, w, q, hadj, hw, hq, rfl⟩
      obtain ⟨hlength, hpath, havoid⟩ := ih.mp hq
      obtain ⟨rest, rfl⟩ := head?_eq_some_iff.mp hpath.first
      have hall : ∀ x ∈ w :: rest, x ∉ v :: seen := forall_mem_cons.mpr ⟨hw, havoid⟩
      refine ⟨by simpa using hlength, isSimplePath_cons.mpr ⟨rfl, hadj, ?_, hpath⟩, ?_⟩
      · exact fun hv => hall v hv mem_cons_self
      · exact fun x hx hseen => hall x hx (mem_cons_of_mem v hseen)
    · rintro ⟨hlength, hpath, havoid⟩
      obtain ⟨u, q, rfl⟩ := exists_of_length_succ p hlength
      obtain ⟨w, rest, rfl⟩ := exists_of_length_succ q (Nat.succ.inj hlength)
      obtain ⟨rfl, hadj, hnot, hrest⟩ := isSimplePath_cons.mp hpath
      have hall : ∀ x ∈ w :: rest, x ∉ u :: seen := by
        intro x hx
        rw [mem_cons, not_or]
        exact ⟨fun h => hnot (h ▸ hx), havoid x hx⟩
      rw [forall_mem_cons] at hall
      refine ⟨?_, w, w :: rest, hadj, hall.1, ih.mpr ⟨by simpa using hlength, hrest, hall.2⟩, rfl⟩
      rintro rfl
      exact hnot (mem_of_getLast? hrest.last)

theorem nodup_pathsOfLength (hg : g.WellFormed) (n : ℕ) (seen : List ℤ) (v : ℤ) :
    (g.pathsOfLength t n seen v).Nodup := by
  induction n generalizing seen v with
  | zero =>
    rw [pathsOfLength]
    split_ifs
    · exact nodup_singleton _
    · exact nodup_nil
  | succ n ih =>
    rw [pathsOfLength]
    split_ifs
    · exact nodup_nil
    refine nodup_flatMap.mpr ⟨fun w _ => (ih _ w).map cons_injective, ?_⟩
    -- paths that go on to different nodes differ in their second node
    refine ((nodup_successors hg v).filter _).imp fun {w w'} hne => ?_
    simp only [Function.onFun, disjoint_left, mem_map, mem_pathsOfLength]
    rintro _ ⟨q, ⟨-, hq, -⟩, rfl⟩ ⟨q', ⟨-, hq', -⟩, heq⟩
    obtain rfl := cons_injective heq
    exact hne (Option.some.inj (hq.first.symm.trans hq'.first))

theorem nodup_simplePaths (hg : g.WellFormed) (s t : ℤ) : (g.simplePaths s t).Nodup := by
  refine nodup_flatMap.mpr ⟨fun n _ => nodup_pathsOfLength hg n [] s, ?_⟩
  refine nodup_range.imp fun {n n'} hne => ?_
  simp only [Function.onFun, disjoint_left, mem_pathsOfLength]
  rintro p ⟨hn, -⟩ ⟨hn', -⟩
  omega

theorem Adj.right_mem (hg : g.WellFormed) (h : g.Adj u v) : v ∈ g.nodes := by
  obtain ⟨e, he, -, rfl⟩ := h
  exact hg.target e he

theorem IsSimplePath.subset_nodes (hg : g.WellFormed) (h : g.IsSimplePath s t p)
    (hs : s ∈ g.nodes) : p ⊆ g.nodes := by
  induction p generalizing s with
  | nil => exact nil_subset _
  | cons v q ih =>
    obtain rfl : v = s := Option.some.inj h.first
    refine cons_subset.mpr ⟨hs, ?_⟩
    cases q with
    | nil => exact nil_subset _
    | cons w rest =>
      obtain ⟨-, hadj, -, hrest⟩ := isSimplePath_cons.mp h
      exact ih hrest (hadj.right_mem hg)

theorem IsSimplePath.length_le (hg : g.WellFormed) (h : g.IsSimplePath s t p) (hs : s ∈ g.nodes) :
    p.length ≤ g.nodes.length :=
  (h.once.subperm (h.subset_nodes hg hs)).length_le

theorem IsSimplePath.ne_nil (h : g.IsSimplePath s t p) : p ≠ [] := by
  rintro rfl
  exact absurd h.first (by simp)

theorem mem_simplePaths (hg : g.WellFormed) (hs : s ∈ g.nodes) :
    p ∈ g.simplePaths s t ↔ g.IsSimplePath s t p := by
  simp only [simplePaths, mem_flatMap, mem_range, mem_pathsOfLength]
  constructor
  · rintro ⟨n, -, -, hpath, -⟩
    exact hpath
  · intro hpath
    have hpos := length_pos_iff.mpr hpath.ne_nil
    have hle := hpath.length_le hg hs
    exact ⟨p.length - 1, by omega, by omega, hpath, by simp⟩

/-! ### Nodes within reach -/

/-- One step outward adds the nodes that edges lead to, but for those to be avoided. -/
theorem within_succ (seen : List ℤ) (n : ℕ) (vs : List ℤ) :
    ∃ more, (∀ w, w ∈ more ↔ (∃ v ∈ vs, g.Adj v w) ∧ w ∉ vs ∧ w ∉ seen) ∧
      g.within seen (n + 1) vs = if more = [] then vs else g.within seen n (vs ++ more) := by
  refine ⟨((vs.flatMap g.successors).eraseDups).filter fun w => !vs.contains w && !seen.contains w,
    fun w => by simp [mem_successors], ?_⟩
  rw [within]
  simp only [List.isEmpty_iff]

theorem reaches_of_mem_within {vs : List ℤ} (h : w ∈ g.within seen n vs) :
    ∃ v ∈ vs, Relation.ReflTransGen g.Adj v w := by
  induction n generalizing vs with
  | zero => exact ⟨w, h, .refl⟩
  | succ n ih =>
    obtain ⟨more, hmore, heq⟩ := g.within_succ seen n vs
    rw [heq] at h
    split_ifs at h
    · exact ⟨w, h, .refl⟩
    · obtain ⟨x, hx, hreach⟩ := ih h
      rcases mem_append.mp hx with hx | hx
      · exact ⟨x, hx, hreach⟩
      · obtain ⟨⟨v, hv, hadj⟩, -⟩ := (hmore x).mp hx
        exact ⟨v, hv, .head hadj hreach⟩

theorem getLast_mem_within {vs : List ℤ} (hv : v ∈ vs) (hq : (v :: q).IsChain g.Adj)
    (havoid : ∀ x ∈ q, x ∉ seen) (hlength : q.length ≤ n) (hlast : (v :: q).getLast? = some w) :
    w ∈ g.within seen n vs := by
  induction n generalizing v q vs with
  | zero =>
    obtain rfl := length_eq_zero_iff.mp (Nat.le_zero.mp hlength)
    obtain rfl := Option.some.inj hlast
    exact hv
  | succ n ih =>
    obtain ⟨more, hmore, heq⟩ := g.within_succ seen n vs
    rw [heq]
    -- a step of the walk stays among the nodes found so far or goes to one that is added
    have hstep {x y : ℤ} (hx : x ∈ vs) (hadj : g.Adj x y) (hy : y ∉ seen) : y ∈ vs ++ more := by
      by_cases hold : y ∈ vs
      · exact mem_append_left _ hold
      · exact mem_append_right _ ((hmore y).mpr ⟨⟨x, hx, hadj⟩, hold, hy⟩)
    split_ifs with hempty
    · clear ih hlength
      subst hempty
      rw [append_nil] at hstep
      induction q generalizing v with
      | nil =>
        obtain rfl := Option.some.inj hlast
        exact hv
      | cons x q ih =>
        rw [isChain_cons_cons] at hq
        rw [forall_mem_cons] at havoid
        rw [getLast?_cons_cons] at hlast
        exact ih (hstep hv hq.1 havoid.1) hq.2 havoid.2 hlast
    · cases q with
      | nil => exact ih (mem_append_left _ hv) hq (by simp) (by simp) hlast
      | cons x q =>
        rw [isChain_cons_cons] at hq
        rw [forall_mem_cons] at havoid
        rw [getLast?_cons_cons] at hlast
        exact ih (hstep hv hq.1 havoid.1) hq.2 havoid.2 (Nat.le_of_succ_le_succ hlength) hlast

theorem IsSimplePath.mem_within (h : g.IsSimplePath v t p) (havoid : ∀ x ∈ p.tail, x ∉ seen)
    (hlength : p.length ≤ n + 1) : t ∈ g.within seen n [v] := by
  obtain ⟨q, rfl⟩ := head?_eq_some_iff.mp h.first
  exact getLast_mem_within mem_cons_self h.along havoid (Nat.le_of_succ_le_succ hlength) h.last

theorem exists_isSimplePath (h : Relation.ReflTransGen g.Adj s t) : ∃ p, g.IsSimplePath s t p := by
  induction h using Relation.ReflTransGen.head_induction_on with
  | refl => exact ⟨[t], isSimplePath_singleton.mpr ⟨rfl, rfl⟩⟩
  | @head u v hadj _ ih =>
    obtain ⟨p, hp⟩ := ih
    by_cases hu : u ∈ p
    · -- the path comes back to the node: what follows there is a path already
      obtain ⟨before, after, rfl⟩ := append_of_mem hu
      refine ⟨u :: after, rfl, ?_, hp.along.right_of_append, hp.once.of_append_right⟩
      rw [← hp.last, getLast?_append_of_ne_nil _ (by simp)]
    · obtain ⟨q, rfl⟩ := head?_eq_some_iff.mp hp.first
      exact ⟨u :: v :: q, isSimplePath_cons.mpr ⟨rfl, hadj, hu, hp⟩⟩

/-- Both nodes are in the graph, and edges lead from one to the other. -/
structure Joined (g : Graph) (s t : ℤ) : Prop where
  source : s ∈ g.nodes
  target : t ∈ g.nodes
  reaches : Relation.ReflTransGen g.Adj s t

/-- The test for a connection finds the nodes that can be reached. -/
theorem connected_iff (hg : g.WellFormed) (hs : s ∈ g.nodes) :
    g.connected s t = true ↔ Relation.ReflTransGen g.Adj s t := by
  rw [connected, contains_iff_mem]
  constructor
  · intro h
    obtain ⟨v, hv, hreach⟩ := reaches_of_mem_within h
    rwa [mem_singleton.mp hv] at hreach
  · intro h
    obtain ⟨p, hp⟩ := exists_isSimplePath h
    exact hp.mem_within (by simp) (Nat.le_succ_of_le (hp.length_le hg hs))

/-! ### The first paths -/

theorem foldl_take {α β : Type} {f : List β → α → List β} {items : α → List β} {most : ℕ}
    (hf : ∀ found x, f found x = found ++ (items x).take (most - found.length)) (xs : List α)
    (found : List β) :
    xs.foldl f found = found ++ (xs.flatMap items).take (most - found.length) := by
  induction xs generalizing found with
  | nil => simp
  | cons x xs ih =>
    rw [foldl_cons, hf, ih, flatMap_cons, take_append, append_assoc, length_append, length_take]
    congr 3
    omega

theorem collect_eq (most n : ℕ) (trail : List ℤ) (v : ℤ) (found : List (List ℤ)) :
    g.collect t most n trail v found =
      found ++ ((g.pathsOfLength t n trail v).map (trail.reverse ++ ·)).take
        (most - found.length) := by
  induction n generalizing trail v found with
  | zero =>
    rw [collect, pathsOfLength]
    by_cases hroom : found.length < most
    · obtain ⟨k, hk⟩ : ∃ k, most - found.length = k + 1 := ⟨most - found.length - 1, by omega⟩
      by_cases hv : v = t <;> simp [hroom, hv, hk]
    · have hnone : most - found.length = 0 := by omega
      simp [hroom, hnone]
  | succ n ih =>
    rw [collect]
    by_cases hfull : most ≤ found.length
    · simp [hfull]
    by_cases hv : v = t
    · simp [hv, pathsOfLength]
    rw [if_neg (by simpa [hv] using hfull)]
    split_ifs with hfar
    · -- a node from which the target is too far away begins no path
      have hnone : g.pathsOfLength t (n + 1) trail v = [] := by
        refine eq_nil_iff_forall_not_mem.mpr fun p hp => ?_
        obtain ⟨hlength, hpath, havoid⟩ := mem_pathsOfLength.mp hp
        have hnear := hpath.mem_within havoid (n := n + 1) hlength.le
        simp [hnear] at hfar
      rw [hnone]
      simp
    · rw [foldl_take (fun found w => ih (v :: trail) w found), pathsOfLength,
        if_neg (by simpa using hv), map_flatMap]
      simp [Function.comp_def]

theorem firstPaths_eq (g : Graph) (s t : ℤ) (most : ℕ) :
    g.firstPaths s t most = (g.simplePaths s t).take most := by
  rw [firstPaths, foldl_take (fun found n => collect_eq most n [] s found)]
  simp [simplePaths]

/-- The list has each simple path between two nodes once. -/
structure Lists (g : Graph) (s t : ℤ) (ps : List (List ℤ)) : Prop where
  nodup : ps.Nodup
  mem_iff : ∀ p, p ∈ ps ↔ g.IsSimplePath s t p

/-- The search lists the simple paths of the graph, of which it gives the first so many, and fails
when the nodes are not joined. -/
structure SearchedBy (g : Graph) (search : ℤ → ℤ → ℕ → Outcome (List (List ℤ))) : Prop where
  lists : ∀ {s t}, g.Joined s t → ∃ ps, g.Lists s t ps ∧ ∀ n, search s t n = .ok (ps.take n)
  fails : ∀ {s t}, ¬g.Joined s t → ∀ n, ∃ f, search s t n = .error f

theorem lists_simplePaths (hg : g.WellFormed) (hs : s ∈ g.nodes) (t : ℤ) :
    g.Lists s t (g.simplePaths s t) :=
  ⟨nodup_simplePaths hg s t, fun _ => mem_simplePaths hg hs⟩

theorem searchedBy_search (hg : g.WellFormed) : g.SearchedBy g.search where
  lists := by
    intro s t h
    refine ⟨_, lists_simplePaths hg h.source t, fun n => ?_⟩
    rw [search, if_neg (by simp [h.source, h.target]),
      if_neg (by simp [(connected_iff hg h.source).mpr h.reaches]), firstPaths_eq]
  fails := by
    intro s t h n
    unfold search
    split_ifs with hnodes hpath
    · exact ⟨_, rfl⟩
    · exact ⟨_, rfl⟩
    · rw [Bool.or_eq_true, not_or] at hnodes
      have hs : s ∈ g.nodes := by simpa using hnodes.1
      have hreaches := (connected_iff hg hs).mp (by simpa using hpath)
      exact absurd ⟨hs, by simpa using hnodes.2, hreaches⟩ h

/-! ### The number of paths -/

/-- The number of simple paths in the graph between two nodes. -/
noncomputable def pathCount (g : Graph) (s t : ℤ) : ℕ :=
  {p | g.IsSimplePath s t p ∧ p ⊆ g.nodes}.ncard

theorem Lists.pathCount_eq {ps : List (List ℤ)} (h : g.Lists s t ps) (hg : g.WellFormed)
    (hs : s ∈ g.nodes) : g.pathCount s t = ps.length := by
  have hset : {p | g.IsSimplePath s t p ∧ p ⊆ g.nodes} = (ps.toFinset : Set (List ℤ)) := by
    ext p
    rw [coe_toFinset, Set.mem_ofPred_eq, Set.mem_ofPred_eq, h.mem_iff]
    exact ⟨And.left, fun h => ⟨h, h.subset_nodes hg hs⟩⟩
  rw [pathCount, hset, Set.ncard_coe_finset, toFinset_card_of_nodup h.nodup]

theorem Joined.pathCount_pos (hg : g.WellFormed) (h : g.Joined s t) : 0 < g.pathCount s t := by
  obtain ⟨p, hp⟩ := exists_isSimplePath h.reaches
  rw [(lists_simplePaths hg h.source t).pathCount_eq hg h.source]
  exact length_pos_of_mem ((mem_simplePaths hg h.source).mpr hp)

end RegexCorpus.Graph
