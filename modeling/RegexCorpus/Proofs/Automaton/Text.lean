import RegexCorpus.Proofs.Automaton.Graph
import RegexCorpus.Proofs.Number.Render
import RegexCorpus.Proofs.Run
import RegexCorpus.Proofs.Text.Join

/-!
# Automata and their texts

What the text of an automaton says, line by line, and which automaton is read from it. An automaton
that was written is read back, unless a number has too many digits.
-/

namespace RegexCorpus.Automaton
open List Text Outcome

variable {s line : String} {n : ℤ} {ns sources targets : List ℤ} {e : Edge} {es : List Edge}
variable {w : String} {f : Fault}

/-! ### What a text says -/

/-- The line has these nodes with single spaces between them; an empty line has none. -/
def Lists (line : String) (ns : List ℤ) : Prop :=
  line = "" ∧ ns = [] ∨
    line ≠ "" ∧ List.Forall₂ (fun w n => Text.readInt? w = some n) (Text.splitOn ' ' line) ns

/-- The words of the line are the two nodes of the edge and the words of its label. -/
def IsEdgeLine (line : String) (e : Edge) : Prop :=
  ∃ u v ws, (Text.words line.toList).map String.ofList = u :: v :: ws ∧
    Text.readInt? u = some e.source ∧ Text.readInt? v = some e.target ∧ e.label = Text.join " " ws

/-- The text has a line of sources, a line of targets, and one line for each edge. -/
def Spells (s : String) (sources targets : List ℤ) (es : List Edge) : Prop :=
  ∃ first second rest, Text.splitOn '\n' s = first :: second :: rest ∧ Lists first sources ∧
    Lists second targets ∧ List.Forall₂ IsEdgeLine rest es

theorem Lists.eq_nil_iff (h : Lists line ns) : ns = [] ↔ line = "" := by
  obtain ⟨hline, hns⟩ | ⟨hline, hread⟩ := h
  · exact iff_of_true hns hline
  · refine iff_of_false ?_ hline
    rintro rfl
    exact splitOn_ne_nil _ _ (forall₂_nil_right_iff.mp hread)

theorem node_eq_ok : node w = .ok n ↔ readInt? w = some n := by
  rw [node]
  cases readInt? w <;> simp

theorem mapM_node_eq_ok (hline : line ≠ "") :
    (splitOn ' ' line).mapM node = .ok ns ↔ Lists line ns := by
  simp only [mapM_eq_ok, node_eq_ok, Lists, hline, false_and, false_or, ne_eq, not_false_eq_true,
    true_and]

theorem edge_of_words {u v : String} {ws : List String}
    (h : (words line.toList).map String.ofList = u :: v :: ws) :
    edge line = (do
      let source ← node u
      let target ← node v
      return { source, target, label := join " " ws }) := by
  unfold edge
  rw [h]
  rfl

theorem itemAt_eq_ok {α : Type} {xs : List α} {k : ℕ} {x : α} :
    Value.itemAt xs (k : ℤ) = .ok x ↔ xs[k]? = some x := by
  have hindex : (if (k : ℤ) < 0 then (k : ℤ) + xs.length else k) = Int.ofNat k := if_neg (by omega)
  simp only [Value.itemAt, hindex]
  cases xs[k]? <;> simp

/-- A list with a first and a second item is these two and the rest. -/
theorem eq_cons_cons {α : Type} {xs : List α} {x y : α} (hx : Value.itemAt xs 0 = .ok x)
    (hy : Value.itemAt xs 1 = .ok y) : xs = x :: y :: xs.drop 2 := by
  have hx := (itemAt_eq_ok (k := 0)).mp hx
  have hy := (itemAt_eq_ok (k := 1)).mp hy
  match xs, hx, hy with
  | x' :: y' :: rest, hx, hy =>
    obtain rfl := Option.some.inj hx
    obtain rfl := Option.some.inj hy
    rfl

theorem edge_eq_ok : edge line = .ok e ↔ IsEdgeLine line e := by
  constructor
  · intro h
    simp only [edge, bind_eq_ok, pure_eq_ok, node_eq_ok] at h
    obtain ⟨u, hu, source, hsource, v, hv, target, htarget, rfl⟩ := h
    exact ⟨u, v, _, eq_cons_cons hu hv, hsource, htarget, rfl⟩
  · rintro ⟨u, v, ws, hwords, hsource, htarget, hlabel⟩
    simp only [edge_of_words hwords, bind_eq_ok, pure_eq_ok, node_eq_ok]
    exact ⟨e.source, hsource, e.target, htarget, by rw [← hlabel]⟩

/-! ### The automaton of a text -/

theorem ofText_of_lines {first second : String} {rest : List String}
    (h : splitOn '\n' s = first :: second :: rest) :
    ofText s = if first = "" ∨ second = "" then .ok none else (do
      let sources ← (splitOn ' ' first).mapM node
      let targets ← (splitOn ' ' second).mapM node
      return some { sources, targets, graph := .ofEdges (← rest.mapM edge) }) := by
  have hrun : ofText s = if (first == "" || second == "") = true then .ok none else (do
      let sources ← (splitOn ' ' first).mapM node
      let targets ← (splitOn ' ' second).mapM node
      return some { sources, targets, graph := .ofEdges (← rest.mapM edge) }) := by
    unfold ofText
    rw [h]
    rfl
  simp only [hrun, Bool.or_eq_true, beq_iff_eq]

theorem ofText_of_empty (h : Spells s sources targets es) (hempty : sources = [] ∨ targets = []) :
    ofText s = .ok none := by
  obtain ⟨first, second, rest, hlines, hsources, htargets, -⟩ := h
  rw [ofText_of_lines hlines, if_pos]
  exact hempty.imp hsources.eq_nil_iff.mp htargets.eq_nil_iff.mp

theorem ofText_eq_some {a : Automaton} :
    ofText s = .ok (some a) ↔ a.sources ≠ [] ∧ a.targets ≠ [] ∧
      ∃ es, Spells s a.sources a.targets es ∧ a.graph = .ofEdges es := by
  constructor
  · intro h
    obtain ⟨first, second, rest, hlines⟩ :
        ∃ first second rest, splitOn '\n' s = first :: second :: rest := by
      simp only [ofText, bind_eq_ok] at h
      obtain ⟨first, hfirst, second, hsecond, -⟩ := h
      exact ⟨first, second, _, eq_cons_cons hfirst hsecond⟩
    rw [ofText_of_lines hlines] at h
    split_ifs at h with hempty
    · cases h
    rw [not_or] at hempty
    simp only [bind_eq_ok, pure_eq_ok, mapM_node_eq_ok hempty.1,
      mapM_node_eq_ok hempty.2, mapM_eq_ok, edge_eq_ok, Option.some.injEq] at h
    obtain ⟨sources, hsources, targets, htargets, es, hes, rfl⟩ := h
    exact ⟨hsources.eq_nil_iff.not.mpr hempty.1, htargets.eq_nil_iff.not.mpr hempty.2, es,
      ⟨first, second, rest, hlines, hsources, htargets, hes⟩, rfl⟩
  · rintro ⟨hs, ht, es, ⟨first, second, rest, hlines, hsources, htargets, hes⟩, hgraph⟩
    have hfirst : first ≠ "" := hsources.eq_nil_iff.not.mp hs
    have hsecond : second ≠ "" := htargets.eq_nil_iff.not.mp ht
    rw [ofText_of_lines hlines, if_neg (not_or.mpr ⟨hfirst, hsecond⟩)]
    simp only [bind_eq_ok, pure_eq_ok, mapM_node_eq_ok hfirst,
      mapM_node_eq_ok hsecond, mapM_eq_ok, edge_eq_ok, Option.some.injEq]
    exact ⟨a.sources, hsources, a.targets, htargets, es, hes, by rw [← hgraph]⟩

/-! ### Writing an automaton -/

def nodeLine (ns : List ℤ) : String := Text.join " " (ns.map Text.ofInt)

def edgeLine (e : Edge) : String :=
  Text.ofInt e.source ++ " " ++ (Text.ofInt e.target ++ " " ++ e.label)

def toText (sources targets : List ℤ) (es : List Edge) : String :=
  Text.join "\n" (nodeLine sources :: nodeLine targets :: es.map edgeLine)

/-- The label is made up of words with single spaces between them. -/
def IsLabel (label : String) : Prop := ∃ ws, (∀ w ∈ ws, Text.IsWord w) ∧ label = Text.join " " ws

/-- The number has few enough digits to be read. -/
def IsShort (n : ℤ) : Prop := n.natAbs < 10 ^ Text.maxDigits

def numbers (sources targets : List ℤ) (es : List Edge) : List ℤ :=
  sources ++ targets ++ es.flatMap fun e => [e.source, e.target]

theorem isWord_ofInt (n : ℤ) : Text.IsWord (ofInt n) := by
  have hblank : OfNumbers fun c => isBlank c = false :=
    ⟨fun c => isBlank_of_isDigit, by decide, by decide, by decide, by decide⟩
  refine ⟨fun hempty => ?_, hblank.ofInt n⟩
  have hnil := String.toList_eq_nil_iff.mpr hempty
  cases n with
  | ofNat n => simp [ofInt, ofNat] at hnil
  | negSucc n => simp [ofInt] at hnil

/-- Words hold neither spaces nor line feeds. -/
theorem not_mem_word (hw : Text.IsWord w) {c : Char} (hc : isBlank c = true) :
    c ∉ w.toList := fun h => by
  rw [hw.not_blank c h] at hc
  cases hc

theorem splitOn_nodeLine (hns : ns ≠ []) : splitOn ' ' (nodeLine ns) = ns.map ofInt := by
  refine splitOn_join rfl (by simpa using hns) fun w hw => ?_
  obtain ⟨n, -, rfl⟩ := mem_map.mp hw
  exact not_mem_word (isWord_ofInt n) (by decide)

theorem nodeLine_ne_empty (hns : ns ≠ []) : nodeLine ns ≠ "" := by
  intro hempty
  have hsplit := splitOn_nodeLine hns
  rw [hempty, splitOn_of_not_mem (by simp)] at hsplit
  have hmem : "" ∈ ns.map ofInt := hsplit ▸ mem_singleton.mpr rfl
  obtain ⟨n, -, hn⟩ := mem_map.mp hmem
  exact (isWord_ofInt n).ne_empty hn

theorem words_edgeLine (e : Edge) :
    (words (edgeLine e).toList).map String.ofList =
      ofInt e.source :: ofInt e.target ::
        (words e.label.toList).map String.ofList := by
  rw [edgeLine, words_append (isWord_ofInt _), words_append (isWord_ofInt _),
    map_cons, map_cons, String.ofList_toList, String.ofList_toList]

theorem not_newline_mem_nodeLine (ns : List ℤ) : '\n' ∉ (nodeLine ns).toList := by
  refine not_mem_join (by decide) fun w hw => ?_
  obtain ⟨n, -, rfl⟩ := mem_map.mp hw
  exact not_mem_word (isWord_ofInt n) (by decide)

theorem not_newline_mem_edgeLine (hlabel : IsLabel e.label) : '\n' ∉ (edgeLine e).toList := by
  obtain ⟨ws, hws, hjoin⟩ := hlabel
  have hnumber (n : ℤ) : '\n' ∉ (ofInt n).toList := not_mem_word (isWord_ofInt n) (by decide)
  have hwords : '\n' ∉ (join " " ws).toList :=
    not_mem_join (by decide) fun w hw => not_mem_word (hws w hw) (by decide)
  simp [edgeLine, hjoin, hnumber, hwords]

theorem splitOn_toText (sources targets : List ℤ) (hlabels : ∀ e ∈ es, IsLabel e.label) :
    splitOn '\n' (toText sources targets es) =
      nodeLine sources :: nodeLine targets :: es.map edgeLine := by
  refine splitOn_join rfl (by simp) ?_
  refine forall_mem_cons.mpr ⟨not_newline_mem_nodeLine _, forall_mem_cons.mpr
    ⟨not_newline_mem_nodeLine _, fun l hl => ?_⟩⟩
  obtain ⟨e, he, rfl⟩ := mem_map.mp hl
  exact not_newline_mem_edgeLine (hlabels e he)

/-! ### Reading what was written -/

theorem lists_nodeLine (hshort : ∀ n ∈ ns, IsShort n) : Lists (nodeLine ns) ns := by
  by_cases hns : ns = []
  · subst hns
    exact .inl ⟨rfl, rfl⟩
  · refine .inr ⟨nodeLine_ne_empty hns, ?_⟩
    rw [splitOn_nodeLine hns, forall₂_map_left_iff, forall₂_same]
    exact fun n hn => readInt?_ofInt (hshort n hn)

theorem isEdgeLine_edgeLine (hlabel : IsLabel e.label) (hsource : IsShort e.source)
    (htarget : IsShort e.target) : IsEdgeLine (edgeLine e) e := by
  obtain ⟨ws, hws, hjoin⟩ := hlabel
  refine ⟨_, _, _, words_edgeLine e, readInt?_ofInt hsource, readInt?_ofInt htarget, ?_⟩
  rw [hjoin, words_join hws]

theorem spells_toText (hlabels : ∀ e ∈ es, IsLabel e.label)
    (hshort : ∀ n ∈ numbers sources targets es, IsShort n) :
    Spells (toText sources targets es) sources targets es := by
  simp only [numbers, forall_mem_append, mem_flatMap] at hshort
  refine ⟨_, _, _, splitOn_toText sources targets hlabels, lists_nodeLine hshort.1.1,
    lists_nodeLine hshort.1.2, ?_⟩
  rw [forall₂_map_left_iff, forall₂_same]
  exact fun e he => isEdgeLine_edgeLine (hlabels e he) (hshort.2 _ ⟨e, he, by simp⟩)
    (hshort.2 _ ⟨e, he, by simp⟩)

/-! ### Numbers that are too long -/

theorem isShort_of_node {m : ℤ} (h : node (ofInt n) = .ok m) : IsShort n := by
  by_contra hlong
  rw [node_eq_ok, readInt?_ofInt_of_long (not_lt.mp hlong)] at h
  cases h

theorem node_eq_error (h : node w = .error f) : f = .badValue "" := by
  unfold node at h
  split at h <;> cases h
  rfl

theorem isShort_of_edge {e' : Edge} (h : edge (edgeLine e) = .ok e') :
    IsShort e.source ∧ IsShort e.target := by
  simp only [edge_of_words (words_edgeLine e), bind_eq_ok] at h
  obtain ⟨source, hsource, target, htarget, -⟩ := h
  exact ⟨isShort_of_node hsource, isShort_of_node htarget⟩

theorem edge_eq_error (h : edge (edgeLine e) = .error f) : f = .badValue "" := by
  simp only [edge_of_words (words_edgeLine e), bind_eq_error] at h
  obtain hsource | ⟨source, -, htarget | ⟨target, -, hend⟩⟩ := h
  · exact node_eq_error hsource
  · exact node_eq_error htarget
  · cases hend

theorem mapM_node_eq_error {ws : List String} (h : ws.mapM node = .error f) : f = .badValue "" := by
  obtain ⟨w, -, hw⟩ := exists_of_mapM_eq_error h
  exact node_eq_error hw

theorem ofText_toText_of_long (hs : sources ≠ []) (ht : targets ≠ [])
    (hlabels : ∀ e ∈ es, IsLabel e.label) (hn : n ∈ numbers sources targets es)
    (hlong : ¬IsShort n) : ofText (toText sources targets es) = .error (.badValue "") := by
  have hread := ofText_of_lines (splitOn_toText sources targets hlabels)
  rw [if_neg (not_or.mpr ⟨nodeLine_ne_empty hs, nodeLine_ne_empty ht⟩), splitOn_nodeLine hs,
    splitOn_nodeLine ht] at hread
  cases hresult : ofText (toText sources targets es) with
  | error f =>
    simp only [hread, bind_eq_error] at hresult
    obtain h | ⟨_, -, h | ⟨_, -, h | ⟨_, -, h⟩⟩⟩ := hresult
    · rw [mapM_node_eq_error h]
    · rw [mapM_node_eq_error h]
    · obtain ⟨l, hl, hedge⟩ := exists_of_mapM_eq_error h
      obtain ⟨e, -, rfl⟩ := mem_map.mp hl
      rw [edge_eq_error hedge]
    · cases h
  | ok result =>
    -- a text that is read has short numbers only
    simp only [hread, bind_eq_ok, mapM_eq_ok, forall₂_map_left_iff] at hresult
    obtain ⟨_, hsources, _, htargets, _, hedges, -⟩ := hresult
    refine absurd ?_ hlong
    simp only [numbers, mem_append, mem_flatMap] at hn
    obtain (hn | hn) | ⟨e, he, hn⟩ := hn
    · obtain ⟨m, -, hm⟩ := exists_of_mem_right hsources.flip hn
      exact isShort_of_node hm
    · obtain ⟨m, -, hm⟩ := exists_of_mem_right htargets.flip hn
      exact isShort_of_node hm
    · obtain ⟨e', -, he'⟩ := exists_of_mem_right hedges.flip he
      obtain ⟨hsource, htarget⟩ := isShort_of_edge he'
      rw [mem_pair] at hn
      obtain rfl | rfl := hn
      · exact hsource
      · exact htarget

/-- Sources, targets and edges that were written are read back, in order and with their repetitions,
as a graph with the last of the edges for each pair; unless a number has too many digits, which
leaves the text unreadable. -/
theorem ofText_toText (hs : sources ≠ []) (ht : targets ≠ [])
    (hlabels : ∀ e ∈ es, IsLabel e.label) :
    ((∀ n ∈ numbers sources targets es, IsShort n) →
      ∃ g, ofText (toText sources targets es) = .ok (some ⟨sources, targets, g⟩) ∧
        g.Gathers es) ∧
    ((∃ n ∈ numbers sources targets es, ¬IsShort n) →
      ofText (toText sources targets es) = .error (.badValue "")) := by
  refine ⟨fun hshort => ⟨_, ?_, Graph.gathers_ofEdges es⟩, fun ⟨n, hn, hlong⟩ => ?_⟩
  · exact ofText_eq_some.mpr ⟨hs, ht, es, spells_toText hlabels hshort, rfl⟩
  · exact ofText_toText_of_long hs ht hlabels hn hlong

theorem isShort_digit (h : n.natAbs < 10) : IsShort n :=
  lt_of_lt_of_le h (Nat.le_self_pow (by decide) 10)

/-- Edges of which the last replaces the first, with labels of two words, of one and of none. -/
def relabelled : List Edge := [⟨3, -1, "a b"⟩, ⟨0, 3, "c"⟩, ⟨3, -1, ""⟩]

theorem isLabel_relabelled : ∀ e ∈ relabelled, IsLabel e.label := by
  simp only [relabelled, forall_mem_cons, not_mem_nil, false_imp_iff, implies_true, and_true]
  exact ⟨⟨["a", "b"], by decide, rfl⟩, ⟨["c"], by decide, rfl⟩, ⟨[], by decide, rfl⟩⟩

theorem ofText_toText_relabelled :
    ∃ g, ofText (toText [3, 3] [-1] relabelled) = .ok (some ⟨[3, 3], [-1], g⟩) ∧
      g.Gathers relabelled ∧ ⟨3, -1, ""⟩ ∈ g.edges := by
  have hread := ofText_toText (by simp : ([3, 3] : List ℤ) ≠ [])
    (by simp : ([-1] : List ℤ) ≠ []) isLabel_relabelled
  obtain ⟨g, hg, hgathers⟩ := hread.1 fun n hn => isShort_digit (by revert n; decide)
  have hlast : Graph.IsLast relabelled ⟨3, -1, ""⟩ :=
    ⟨[⟨3, -1, "a b"⟩, ⟨0, 3, "c"⟩], [], rfl, by simp⟩
  exact ⟨g, hg, hgathers, (hgathers.mem_edges _).mpr hlast⟩

/-- A node of too many digits is not read back. -/
theorem ofText_toText_longNode :
    IsLabel "a" ∧ ∀ g, ofText (toText [10 ^ Text.maxDigits] [0] [⟨10 ^ Text.maxDigits, 0, "a"⟩]) ≠
      .ok (some ⟨[10 ^ Text.maxDigits], [0], g⟩) := by
  have hlabel : IsLabel "a" := ⟨["a"], by decide, rfl⟩
  have hlong : ¬IsShort (10 ^ Text.maxDigits) := by simp [IsShort, Int.natAbs_pow]
  refine ⟨hlabel, fun g hread => ?_⟩
  rw [ofText_toText_of_long (n := 10 ^ Text.maxDigits) (by simp) (by simp) (by simpa using hlabel)
    (by simp [numbers]) hlong] at hread
  cases hread

end RegexCorpus.Automaton
