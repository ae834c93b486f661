import RegexCorpus.Proofs.SyntaxTree.Calls
import RegexCorpus.Proofs.SyntaxTree.Equality
import RegexCorpus.SyntaxTree.Instrument

/-!
# Logging calls in a tree

A logging call is a call of the function that logs a pattern; the pattern is its first argument, and
all the rest of it has been put there by the instrumentation.
-/

namespace RegexCorpus.Tree
open List

variable {t : Tree}

/-- A call of the function that logs a pattern. -/
def isLogging (t : Tree) : Bool := t.isKind "Call" && t.field? "func" == some logger

def firstArgument? (t : Tree) : Option Tree := ((t.field? "args").bind items?).bind List.head?

def isWrapped (t : Tree) : Bool := t.isKind "Call" && t.firstArgument?.any isLogging

mutual

/-- The tree with every logging call replaced by its first argument. -/
def strip : Tree → Tree
  | node kind fs =>
    if (node kind fs).isLogging then stripPattern fs else node kind (stripFields fs)
  | list ts => list (stripItems ts)
  | leaf v => leaf v

/-- Fields with every logging call replaced. -/
def stripFields : List (String × Tree) → List (String × Tree)
  | [] => []
  | (name, t) :: fs => (name, strip t) :: stripFields fs

/-- Items with every logging call replaced. -/
def stripItems : List Tree → List Tree
  | [] => []
  | t :: ts => strip t :: stripItems ts

/-- The first argument among the fields of a logging call. -/
def stripPattern : List (String × Tree) → Tree
  | [] => leaf .null
  | ("args", list (t :: _)) :: _ => strip t
  | _ :: fs => stripPattern fs

end

mutual

/-- The nodes of the program in pre-order: of a logging call, only those of its first argument. -/
def ownNodes : Tree → List Tree
  | node kind fs =>
    if (node kind fs).isLogging then patternNodes fs else node kind fs :: ownFieldNodes fs
  | list ts => ownItemNodes ts
  | leaf _ => []

def ownFieldNodes : List (String × Tree) → List Tree
  | [] => []
  | (_, t) :: fs => ownNodes t ++ ownFieldNodes fs

def ownItemNodes : List Tree → List Tree
  | [] => []
  | t :: ts => ownNodes t ++ ownItemNodes ts

/-- The nodes of the program in the first argument of a logging call. -/
def patternNodes : List (String × Tree) → List Tree
  | [] => []
  | ("args", list (t :: _)) :: _ => ownNodes t
  | _ :: fs => patternNodes fs

end

/-- Around a node only the first positional argument of a call may be logged, and that once. -/
structure LogsFirst (source log : String) (n : Tree) : Prop where
  /-- A logging call is as the wrapper makes it, and what it logs is no logging call. -/
  once : n.isLogging → ∃ p, n = logged source log p ∧ p.isLogging = false
  field : ∀ f ∈ n.fields, f.2.isLogging = false
  item : ∀ f ∈ n.fields, ∀ ts, f.2 = list ts → ∀ i t, ts[i]? = some t → t.isLogging = true →
    n.isKind "Call" ∧ f.1 = "args" ∧ i = 0

theorem isWrapped_iff {n : Tree} :
    n.isWrapped = true ↔
      n.isKind "Call" ∧ ∃ p ps, n.field? "args" = some (list (p :: ps)) ∧ p.isLogging = true := by
  rw [isWrapped, Bool.and_eq_true, and_congr_right_iff]
  intro _
  constructor
  · intro h
    cases hp : n.firstArgument? with
    | none => simp [hp] at h
    | some p =>
      rw [hp, Option.any_some] at h
      obtain ⟨ps, hps, hhead⟩ := Option.bind_eq_some_iff.mp hp
      obtain ⟨t, ht, hitems⟩ := Option.bind_eq_some_iff.mp hps
      obtain ⟨qs, rfl⟩ := head?_eq_some_iff.mp hhead
      unfold items? at hitems
      split at hitems <;> cases hitems
      exact ⟨p, qs, ht, h⟩
  · rintro ⟨p, ps, hargs, h⟩
    simp [firstArgument?, hargs, items?, h]

/-! ### Forests -/

theorem fieldNodes_eq (fs : Fields) :
    fieldNodes fs = (fs.map Prod.snd).flatMap nodes := by
  induction fs with
  | nil => rfl
  | cons f fs ih => rw [fieldNodes, ih, map_cons, flatMap_cons]

theorem itemNodes_eq (ts : List Tree) : itemNodes ts = ts.flatMap nodes := by
  induction ts with
  | nil => rfl
  | cons t ts ih => rw [itemNodes, ih, flatMap_cons]

theorem ownFieldNodes_eq (fs : Fields) :
    ownFieldNodes fs = (fs.map Prod.snd).flatMap ownNodes := by
  induction fs with
  | nil => rfl
  | cons f fs ih => rw [ownFieldNodes, ih, map_cons, flatMap_cons]

theorem ownItemNodes_eq (ts : List Tree) : ownItemNodes ts = ts.flatMap ownNodes := by
  induction ts with
  | nil => rfl
  | cons t ts ih => rw [ownItemNodes, ih, flatMap_cons]

theorem stripFields_eq (fs : Fields) :
    stripFields fs = (fs.map Prod.fst).zip ((fs.map Prod.snd).map strip) := by
  induction fs with
  | nil => rfl
  | cons f fs ih => simp only [stripFields, ih, map_cons, zip_cons_cons]

theorem stripItems_eq (ts : List Tree) : stripItems ts = ts.map strip := by
  induction ts with
  | nil => rfl
  | cons t ts ih => rw [stripItems, ih, map_cons]

theorem field?_stripFields (kind name : String) (fs : Fields) :
    (node kind (stripFields fs)).field? name = ((node kind fs).field? name).map strip := by
  induction fs with
  | nil => rfl
  | cons f fs ih =>
    simp only [stripFields, field?, find?_cons] at ih ⊢
    cases f.1 == name with
    | true => rfl
    | false => exact ih

theorem mem_fields_of_field? {kind name : String} {fs : Fields}
    (h : (node kind fs).field? name = some t) : (name, t) ∈ fs := by
  obtain ⟨f, hf, rfl⟩ := Option.map_eq_some_iff.mp h
  have hname : f.1 = name := by simpa using find?_some hf
  rw [← hname]
  exact mem_of_find?_eq_some hf

theorem nodes_subset {n : Tree} (hn : n ∈ t.nodes) : n.nodes ⊆ t.nodes := by
  induction t using parts_induction with
  | hnode kind fs ih =>
    rw [nodes, mem_cons] at hn
    obtain rfl | hn := hn
    · exact List.Subset.refl _
    · obtain ⟨f, hf, hn⟩ := mem_fieldNodes.mp hn
      intro m hm
      rw [nodes]
      exact mem_cons_of_mem _ (mem_fieldNodes.mpr ⟨f, hf, ih f hf hn hm⟩)
  | hlist ts ih =>
    rw [nodes] at hn
    obtain ⟨t, ht, hn⟩ := mem_itemNodes.mp hn
    intro m hm
    rw [nodes]
    exact mem_itemNodes.mpr ⟨t, ht, ih t ht hn hm⟩
  | hleaf v => simp [nodes] at hn

/-! ### Trees without logging calls -/

theorem isLogging_of_not_call (h : t.isKind "Call" = false) : t.isLogging = false := by
  rw [isLogging, h, Bool.false_and]

theorem isWrapped_of_not_call (h : t.isKind "Call" = false) : t.isWrapped = false := by
  rw [isWrapped, h, Bool.false_and]

theorem strip_eq_self (t : Tree) (h : ∀ n ∈ t.nodes, n.isLogging = false) : t.strip = t := by
  induction t using parts_induction with
  | hnode kind fs ih =>
    rw [nodes, forall_mem_cons] at h
    rw [strip, h.1, if_neg (by decide), stripFields_eq]
    have hfields : (fs.map Prod.snd).map strip = fs.map Prod.snd := by
      rw [map_map]
      exact map_congr_left fun f hf =>
        ih f hf fun n hn => h.2 n (mem_fieldNodes.mpr ⟨f, hf, hn⟩)
    rw [hfields, ← zip_of_prod rfl rfl]
  | hlist ts ih =>
    rw [strip, stripItems_eq]
    have hitems : ts.map strip = ts.map id :=
      map_congr_left fun t ht => ih t ht fun n hn => h n (mem_itemNodes.mpr ⟨t, ht, hn⟩)
    rw [hitems, map_id]
  | hleaf v => rw [strip]

theorem ownNodes_eq_nodes (t : Tree) (h : ∀ n ∈ t.nodes, n.isLogging = false) :
    t.ownNodes = t.nodes := by
  induction t using parts_induction with
  | hnode kind fs ih =>
    rw [nodes, forall_mem_cons] at h
    rw [ownNodes, h.1, if_neg (by decide), nodes, ownFieldNodes_eq, fieldNodes_eq]
    congr 1
    rw [flatMap_map, flatMap_map]
    exact flatMap_congr fun f hf => ih f hf fun n hn => h.2 n (mem_fieldNodes.mpr ⟨f, hf, hn⟩)
  | hlist ts ih =>
    rw [ownNodes, nodes, ownItemNodes_eq, itemNodes_eq]
    exact flatMap_congr fun t ht => ih t ht fun n hn => h n (mem_itemNodes.mpr ⟨t, ht, hn⟩)
  | hleaf v => rw [ownNodes, nodes]

theorem logsFirst_of_not_logging (h : ∀ n ∈ t.nodes, n.isLogging = false) (source log : String) :
    ∀ n ∈ t.nodes, n.LogsFirst source log ∧ n.isWrapped = false := by
  intro n hn
  -- the children of the node are nodes of the tree, or no nodes at all
  have hchild (u : Tree) (hu : u.nodes ⊆ n.nodes) : u.isLogging = false := by
    cases u with
    | node kind fs => exact h _ (nodes_subset hn (hu (by rw [nodes]; exact mem_cons_self)))
    | list | leaf => rfl
  have hfield : ∀ f ∈ n.fields, f.2.nodes ⊆ n.nodes := by
    cases n with
    | node kind fs =>
      intro f hf m hm
      rw [nodes]
      exact mem_cons_of_mem _ (mem_fieldNodes.mpr ⟨f, hf, hm⟩)
    | list | leaf => simp [fields]
  have hitem : ∀ f ∈ n.fields, ∀ ts, f.2 = list ts → ∀ u ∈ ts, u.isLogging = false := by
    intro f hf ts hts u hu
    refine hchild u fun m hm => hfield f hf ?_
    rw [hts, nodes]
    exact mem_itemNodes.mpr ⟨u, hu, hm⟩
  refine ⟨⟨fun hl => ?_, fun f hf => hchild f.2 (hfield f hf), fun f hf ts hts i u hu hl => ?_⟩, ?_⟩
  · rw [h n hn] at hl
    cases hl
  · rw [hitem f hf ts hts u (mem_of_getElem? hu)] at hl
    cases hl
  · by_contra hne
    obtain ⟨-, p, ps, hargs, hl⟩ := isWrapped_iff.mp (by simpa using hne)
    have hmem : ("args", list (p :: ps)) ∈ n.fields := by
      cases n with
      | node kind fs => exact mem_fields_of_field? hargs
      | list | leaf => cases hargs
    rw [hitem _ hmem _ rfl p mem_cons_self] at hl
    cases hl

/-! ### The wrapper -/

section
variable {source log : String} {p : Tree}

theorem isLogging_logged : (logged source log p).isLogging = true := by
  simp [logged, call, isLogging, isKind, field?]

theorem strip_logged : (logged source log p).strip = p.strip := by
  rw [logged, call, strip, ← call, ← logged, isLogging_logged, if_pos rfl]
  simp [stripPattern]

theorem ownNodes_logged : (logged source log p).ownNodes = p.ownNodes := by
  rw [logged, call, ownNodes, ← call, ← logged, isLogging_logged, if_pos rfl]
  simp [patternNodes]

/-- The arguments of the function that logs a pattern, after the pattern itself. -/
def loggerArguments (source log : String) : List Tree :=
  [constant (.str "UNKNOWN"), call (globalName "open") [constant (.str log), constant (.str "a")],
    constant (.str source), call (globalName "__import__") [constant (.str "json")]]

theorem nodes_logged :
    (logged source log p).nodes =
      logged source log p ::
        (logger.nodes ++ (p.nodes ++ itemNodes (loggerArguments source log))) := by
  have hlogged : logged source log p = call logger (p :: loggerArguments source log) := rfl
  rw [hlogged, call, nodes, fieldNodes, fieldNodes, fieldNodes, fieldNodes, nodes, nodes, itemNodes,
    itemNodes, append_nil, append_nil]

/-- What the wrapper puts around a pattern. -/
def injected (source log : String) : Tree := list (logger :: loggerArguments source log)

theorem not_logging_injected (source log : String) :
    ∀ n ∈ (injected source log).nodes, n.isLogging = false := by
  have hlogger : ∀ n ∈ logger.nodes, n.isLogging = false := by decide
  intro n hn
  rw [injected, nodes, itemNodes, mem_append] at hn
  obtain hn | hn := hn
  · exact hlogger n hn
  · simp only [loggerArguments, itemNodes, nodes, fieldNodes, constant, call, globalName,
      mem_append, mem_cons, not_mem_nil, append_nil, or_false] at hn
    casesm* _ ∨ _ <;> subst n <;> simp [isLogging, isKind, field?, logger]

theorem mem_nodes_logged {n : Tree} (hn : n ∈ (logged source log p).nodes) :
    n = logged source log p ∨ n ∈ p.nodes ∨ n ∈ (injected source log).nodes := by
  rw [nodes_logged, mem_cons, mem_append, mem_append] at hn
  rw [injected, nodes, itemNodes, mem_append]
  tauto

theorem isWrapped_logged (h : p.isLogging = false) : (logged source log p).isWrapped = false := by
  simp [logged, call, isWrapped, firstArgument?, field?, items?, h]

/-- Around a pattern that is no logging call the wrapper logs nothing else. -/
theorem filter_isWrapped_logged (h : p.isLogging = false) :
    (logged source log p).nodes.filter isWrapped = p.nodes.filter isWrapped := by
  have hinjected := logsFirst_of_not_logging (not_logging_injected source log) source log
  rw [injected, nodes, itemNodes, forall_mem_append] at hinjected
  have hnone {ns : List Tree} (hns : ∀ n ∈ ns, n.LogsFirst source log ∧ n.isWrapped = false) :
      ns.filter isWrapped = [] :=
    filter_eq_nil_iff.mpr fun n hn => by simp [(hns n hn).2]
  rw [nodes_logged, filter_cons_of_neg (by simp [isWrapped_logged h]), filter_append,
    filter_append, hnone hinjected.1, hnone hinjected.2, nil_append, append_nil]

theorem logsFirst_logged (h : p.isLogging = false) :
    (logged source log p).LogsFirst source log where
  once _ := ⟨p, rfl, h⟩
  field := by simp [logged, call, fields, isLogging, isKind, logger]
  item := by
    have hnot (t : Tree) (ht : t ∈ p :: loggerArguments source log) : t.isLogging = false := by
      obtain rfl | ht := mem_cons.mp ht
      · exact h
      · simp only [loggerArguments, mem_cons, not_mem_nil, or_false] at ht
        casesm* _ ∨ _ <;> subst t <;>
          simp [constant, call, globalName, isLogging, isKind, field?, logger]
    intro f hf ts hts i t ht hl
    simp only [logged, call, fields, mem_cons, not_mem_nil, or_false] at hf
    obtain rfl | rfl | rfl := hf
    · cases hts
    · cases hts
      rw [hnot t (mem_of_getElem? ht)] at hl
      cases hl
    · cases hts
      simp at ht

end

end RegexCorpus.Tree
