import RegexCorpus.Proofs.SyntaxTree.Logging

/-!
# The walk through the wrapper

The walk wraps the first argument of a call and then enters the call, so that it goes through the
wrapper as well. It finds nothing to do there, whatever the names of the module of patterns are: a
node comes out as if its fields had been walked through first and its argument wrapped afterwards.
-/

namespace RegexCorpus.Tree
open List

variable {source log : String}

/-! ### The wrapper is left as it is -/

/-- Nothing that the walk looks for, whatever the names of the module of patterns are. -/
def IsInert (t : Tree) : Prop := ∀ n ∈ t.nodes, n.isKind "Import" = false ∧ n.namesFunction = false

instance : DecidablePred IsInert := fun t =>
  inferInstanceAs (Decidable (∀ n ∈ t.nodes, n.isKind "Import" = false ∧ n.namesFunction = false))

/-- An item after the walk, which enters nodes only. -/
def instrumentItem (source log : String) (t : Tree) (names : List String) : Tree × List String :=
  if t.isNode then instrumentTree source log t names else (t, names)

theorem instrumentItems_cons (t : Tree) (ts : List Tree) (names : List String) :
    instrumentItems source log (t :: ts) names =
      ((instrumentItem source log t names).1 ::
          (instrumentItems source log ts (instrumentItem source log t names).2).1,
        (instrumentItems source log ts (instrumentItem source log t names).2).2) := by
  cases t <;> simp [instrumentItems, instrumentItem, isNode]

theorem instrumentFields_cons (name : String) (t : Tree) (fs : Fields)
    (names : List String) :
    instrumentFields source log ((name, t) :: fs) names =
      ((name, (instrumentTree source log t names).1) ::
          (instrumentFields source log fs (instrumentTree source log t names).2).1,
        (instrumentFields source log fs (instrumentTree source log t names).2).2) := by
  rw [instrumentFields]

theorem instrumentTree_list (ts : List Tree) (names : List String) :
    instrumentTree source log (list ts) names =
      (list (instrumentItems source log ts names).1, (instrumentItems source log ts names).2) := by
  rw [instrumentTree]

theorem instrumentTree_node {kind : String} (himport : kind ≠ "Import")
    (hfrom : kind ≠ "ImportFrom") (fs : Fields) (names : List String) :
    instrumentTree source log (node kind fs) names =
      (node kind (instrumentFields source log (prepared source log names kind fs) names).1,
        (instrumentFields source log (prepared source log names kind fs) names).2) := by
  rw [instrumentTree]
  · exact himport
  · exact hfrom

theorem exists_node_instrumentTree (source log kind : String) (fs : Fields)
    (names : List String) :
    ∃ gs, (instrumentTree source log (node kind fs) names).1 = node kind gs := by
  by_cases himport : kind = "Import"
  · subst himport
    exact ⟨fs, by rw [instrumentTree]⟩
  by_cases hfrom : kind = "ImportFrom"
  · subst hfrom
    exact ⟨fs, by rw [instrumentTree]⟩
  · exact ⟨_, by rw [instrumentTree_node himport hfrom]⟩

theorem prepared_of_not_namesFunction {kind : String} {fs : Fields}
    (h : (node kind fs).namesFunction = false) (names : List String) :
    prepared source log names kind fs = fs := by
  have htakes : takesPattern names (node kind fs) = false := by
    by_contra hne
    rw [namesFunction_of_takesPattern (by simpa using hne)] at h
    cases h
  rw [prepared, htakes, Bool.and_false, if_neg (by decide)]

theorem instrumentFields_inert {fs : Fields}
    (h : ∀ f ∈ fs, ∀ names, instrumentTree source log f.2 names = (f.2, names))
    (names : List String) : instrumentFields source log fs names = (fs, names) := by
  induction fs with
  | nil => rw [instrumentFields]
  | cons f fs ih =>
    rw [forall_mem_cons] at h
    rw [instrumentFields_cons, h.1, ih h.2]

theorem instrumentItems_inert {ts : List Tree}
    (h : ∀ t ∈ ts, ∀ names, instrumentTree source log t names = (t, names))
    (names : List String) : instrumentItems source log ts names = (ts, names) := by
  induction ts with
  | nil => rw [instrumentItems]
  | cons t ts ih =>
    rw [forall_mem_cons] at h
    have hitem : instrumentItem source log t names = (t, names) := by
      rw [instrumentItem, h.1, ite_self]
    rw [instrumentItems_cons, hitem, ih h.2]

/-- The walk goes through an inert tree without a change. -/
theorem instrumentTree_inert (t : Tree) (h : t.IsInert) (names : List String) :
    instrumentTree source log t names = (t, names) := by
  induction t using parts_induction generalizing names with
  | hnode kind fs ih =>
    have hnode := h _ (by rw [nodes]; exact mem_cons_self)
    by_cases hfrom : kind = "ImportFrom"
    · subst hfrom
      rw [instrumentTree]
    · rw [instrumentTree_node (by simpa [isKind] using hnode.1) hfrom,
        prepared_of_not_namesFunction hnode.2, instrumentFields_inert]
      refine fun f hf => ih f hf fun n hn => h n ?_
      rw [nodes]
      exact mem_cons_of_mem _ (mem_fieldNodes.mpr ⟨f, hf, hn⟩)
  | hlist ts ih =>
    rw [instrumentTree_list, instrumentItems_inert]
    exact fun t ht => ih t ht fun n hn => h n (by rw [nodes]; exact mem_itemNodes.mpr ⟨t, ht, hn⟩)
  | hleaf v => rw [instrumentTree]

/-- No name of the module of patterns can make a call in the wrapper one that is to be wrapped. -/
theorem isInert_injected : (injected source log).IsInert := by
  have hlogger : logger.IsInert := by decide
  intro n hn
  rw [injected, nodes, itemNodes, mem_append] at hn
  obtain hn | hn := hn
  · exact hlogger n hn
  · simp only [loggerArguments, itemNodes, nodes, fieldNodes, constant, call, globalName,
      mem_append, mem_cons, not_mem_nil, append_nil, or_false] at hn
    casesm* _ ∨ _ <;> subst n <;> simp [isKind, namesFunction, field?]

theorem instrumentTree_injected {t : Tree} (ht : t ∈ logger :: loggerArguments source log)
    (names : List String) : instrumentTree source log t names = (t, names) :=
  instrumentTree_inert t
    (fun n hn => isInert_injected n (by rw [injected, nodes]; exact mem_itemNodes.mpr ⟨t, ht, hn⟩))
    names

theorem instrumentItem_logged (p : Tree) (names : List String) :
    instrumentItem source log (logged source log p) names =
      (logged source log (instrumentItem source log p names).1,
        (instrumentItem source log p names).2) := by
  have hlogged (p : Tree) :
      logged source log p = call logger (p :: loggerArguments source log) := rfl
  have hnames : (node "Call" [("func", logger), ("args", list (p :: loggerArguments source log)),
      ("keywords", list [])]).namesFunction = false := rfl
  have harguments (names : List String) :
      instrumentItems source log (loggerArguments source log) names =
        (loggerArguments source log, names) :=
    instrumentItems_inert (fun t ht => instrumentTree_injected (mem_cons_of_mem _ ht)) names
  have hnode : (logged source log p).isNode = true := rfl
  rw [instrumentItem, if_pos hnode, hlogged, call, instrumentTree_node (by decide) (by decide),
    prepared_of_not_namesFunction hnames, instrumentFields_cons,
    instrumentTree_injected mem_cons_self, instrumentFields_cons, instrumentTree_list,
    instrumentItems_cons, harguments, instrumentFields_cons, instrumentTree_list, instrumentItems,
    instrumentFields, hlogged, call]

theorem wrapFirst_cons_of_ne {wrap : Tree → Tree} {name : String} (h : name ≠ "args") (t : Tree)
    (fs : Fields) :
    wrapFirst wrap ((name, t) :: fs) = (name, t) :: wrapFirst wrap fs := by
  rw [wrapFirst]
  · simp [h]
  · simp [h]

theorem instrumentFields_wrapFirst (fs : Fields) (names : List String) :
    instrumentFields source log (wrapFirst (logged source log) fs) names =
      (wrapFirst (logged source log) (instrumentFields source log fs names).1,
        (instrumentFields source log fs names).2) := by
  induction fs generalizing names with
  | nil => simp [wrapFirst, instrumentFields]
  | cons f fs ih =>
    obtain ⟨name, t⟩ := f
    by_cases hname : name = "args"
    · subst hname
      cases t with
      | node kind gs =>
        obtain ⟨_, hnode⟩ := exists_node_instrumentTree source log kind gs names
        simp [wrapFirst, instrumentFields_cons, hnode]
      | leaf v => simp [wrapFirst, instrumentFields, instrumentTree]
      | list ts =>
        cases ts with
        | nil => simp [wrapFirst, instrumentFields, instrumentTree, instrumentItems]
        | cons t ts =>
          simp [wrapFirst, instrumentFields, instrumentTree_list, instrumentItems_cons,
            instrumentItem_logged]
    · rw [wrapFirst_cons_of_ne hname, instrumentFields_cons, ih, instrumentFields_cons,
        wrapFirst_cons_of_ne hname]

/-- A node after the walk: its fields have been walked through, and the first argument is wrapped if
the node is a call that takes a pattern. -/
theorem instrumentTree_node_eq {kind : String} (himport : kind ≠ "Import")
    (hfrom : kind ≠ "ImportFrom") (fs : Fields) (names : List String) :
    instrumentTree source log (node kind fs) names =
      (node kind (if kind == "Call" && takesPattern names (node kind fs) then
          wrapFirst (logged source log) (instrumentFields source log fs names).1
        else (instrumentFields source log fs names).1),
        (instrumentFields source log fs names).2) := by
  rw [instrumentTree_node himport hfrom, prepared]
  split
  · rw [instrumentFields_wrapFirst]
  · rfl

end RegexCorpus.Tree
