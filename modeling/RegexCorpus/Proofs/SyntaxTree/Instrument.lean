import RegexCorpus.Proofs.SyntaxTree.Wrapper

/-!
# Instrumented trees

Instrumenting the tree of a source file wraps the first argument of the calls that take a pattern,
each once, and does nothing else to the tree. The search for patterns records the same calls, apart
from those at which it breaks off.
-/

namespace RegexCorpus.Tree
open List

variable {source log : String}

/-! ### Calls that are wrapped and calls that are recorded -/

theorem takesPattern_eq {n f : Tree} {names : List String} (hf : n.field? "func" = some f)
    (h : (f.isExpression && (f.field? "value").all isExpression) = true) :
    takesPattern names n = (calledFunction? names n).isSome := by
  cases hcalled : calledFunction? names n with
  | none =>
    unfold takesPattern
    split
    · rw [hcalled]
    · rfl
  | some function =>
    obtain ⟨owner, ⟨hkind, -⟩, -⟩ := (calledFunction?_eq_some hf h).mp hcalled
    cases f with
    | node kind fs =>
      obtain rfl : kind = "Attribute" := by simpa [isKind] using hkind
      rw [takesPattern, hf]
      simp only [hcalled]
    | list | leaf => cases hkind

/-- A call, with an argument, of a function that takes a pattern through a name of the module. -/
def IsPatternCall (names : List String) (n : Tree) : Prop :=
  ∃ owner function args keywords, IsCallOf n owner function args keywords ∧
    function ∈ PatternCall.functions ∧ owner ∈ names ∧ args ≠ []

/-- The search for patterns breaks off at the call: the call cannot be written out, or the walk over
its flags does not come to its end. -/
def BreaksOff (room : Nat) (names : List String) (n : Tree) : Prop :=
  n.hasText room = false ∨
    ∃ function t e, TakesFlags names n function t ∧ readFlags room names t = .error e

theorem IsPatternCall.breaksOff {room : Nat} {names : List String} {n : Tree} (h : n.Shaped)
    (hcall : IsPatternCall names n) (hnone : ∀ c, ¬IsRecordOf room names n c) :
    BreaksOff room names n := by
  by_contra hends
  rw [BreaksOff, not_or, Bool.not_eq_false] at hends
  obtain ⟨owner, function, args, keywords, hof, hfunction, howner, hne⟩ := hcall
  have hflags (flags : String) : ¬FlagsOf room names function args keywords flags := fun hflags =>
    hnone ⟨function, PatternCall.dynamicPattern, flags⟩
      ⟨owner, args, keywords, hof, hfunction, howner, hne, rfl, hends.1, hflags⟩
  cases hindex : PatternCall.flagsIndex? function with
  | none => exact hflags _ (.flagless ((flagsIndex?_eq_none hfunction).mp hindex))
  | some i =>
    simp only [flagsOf_iff hindex (hof.isKeyword h)] at hflags
    cases hsource : flagsSource? args keywords i with
    | none => exact hflags "" (by rw [hsource, sourceText?])
    | some t =>
      cases hread : readFlags room names t with
      | ok r => exact hflags _ (by rw [hsource, sourceText?, hread])
      | error e =>
        exact hends.2 ⟨function, t, e, ⟨h, hfunction, owner, howner, args, keywords, i, hof, hne,
          hindex, hsource⟩, hread⟩

def callsPattern (names : List String) (n : Tree) : Bool :=
  n.isKind "Call" && ((calledFunction? names n).isSome && n.firstArgument?.isSome)

theorem callsPattern_iff {names : List String} {n : Tree} (h : n.Shaped) :
    callsPattern names n = true ↔ IsPatternCall names n := by
  rw [callsPattern, Bool.and_eq_true, Bool.and_eq_true, Option.isSome_iff_exists]
  constructor
  · rintro ⟨hkind, ⟨function, hcalled⟩, hfirst⟩
    obtain ⟨f, hf, hfunc⟩ := fieldIs_iff.mp (h.func hkind)
    obtain ⟨_, hargs, hlist⟩ := fieldIs_iff.mp (h.args hkind)
    obtain ⟨args, rfl, -⟩ := isListOf_iff.mp hlist
    obtain ⟨_, hkeywords, hlist⟩ := fieldIs_iff.mp (h.keywords hkind)
    obtain ⟨keywords, rfl, -⟩ := isListOf_iff.mp hlist
    obtain ⟨owner, hattribute, howner, hfunction⟩ := (calledFunction?_eq_some hf hfunc).mp hcalled
    refine ⟨owner, function, args, keywords, ⟨hkind, ⟨f, hf, hattribute⟩, hargs, hkeywords⟩,
      hfunction, howner, ?_⟩
    rintro rfl
    simp [firstArgument?, hargs, items?] at hfirst
  · rintro ⟨owner, function, args, keywords, hcall, hfunction, howner, hne⟩
    obtain ⟨f, hf, hfunc⟩ := fieldIs_iff.mp (h.func hcall.kind)
    obtain ⟨f', hf', hattribute⟩ := hcall.func
    obtain rfl : f = f' := Option.some.inj (hf.symm.trans hf')
    refine ⟨hcall.kind, ⟨function, (calledFunction?_eq_some hf hfunc).mpr
      ⟨owner, hattribute, howner, hfunction⟩⟩, ?_⟩
    simpa [firstArgument?, hcall.args, items?] using hne

theorem callsPattern_eq {n : Tree} (h : n.Shaped) (hkind : n.isKind "Call") {args : List Tree}
    (hargs : n.field? "args" = some (list args)) (names : List String) :
    callsPattern names n = (takesPattern names n && !args.isEmpty) := by
  obtain ⟨f, hf, hfunc⟩ := fieldIs_iff.mp (h.func hkind)
  rw [takesPattern_eq hf hfunc, callsPattern, hkind, Bool.true_and]
  cases args <;> simp [firstArgument?, hargs, items?]

/-- For each of the nodes, whether it is a call that takes a pattern. The names of the module of
patterns are those given and those that earlier nodes bind. -/
def marks (names : List String) : List Tree → List Bool
  | [] => []
  | n :: ns => callsPattern names n :: marks (names ++ boundNames n) ns

theorem marks_append (names : List String) (ms ns : List Tree) :
    marks names (ms ++ ns) = marks names ms ++ marks (names ++ ms.flatMap boundNames) ns := by
  induction ms generalizing names with
  | nil => simp [marks]
  | cons m ms ih => simp [marks, ih]

theorem marks_of_not_call {ns : List Tree} (h : ∀ n ∈ ns, n.isKind "Call" = false)
    (names : List String) : marks names ns = ns.map isWrapped := by
  induction ns generalizing names with
  | nil => rfl
  | cons n ns ih =>
    rw [forall_mem_cons] at h
    rw [marks, ih h.2, map_cons, isWrapped_of_not_call h.1, callsPattern, h.1, Bool.false_and]

/-! ### Trees beside their instrumented forms -/

/-- Nothing is logged at the tree, nor at the items of a list. -/
structure IsQuiet (u : Tree) : Prop where
  ne_logger : u ≠ logger
  self : u.isLogging = false
  items : ∀ us, u = list us → ∀ v ∈ us, v.isLogging = false

/-- Trees, and what wrapping makes of them: `us` are `ts` with patterns logged, `names` are the names
met before the walk through them and `later` those met after it. -/
structure Rewritten (source log : String) (names : List String) (ts us : List Tree)
    (later : List String) : Prop where
  strip : us.map strip = ts
  own : (us.flatMap ownNodes).map Tree.strip = ts.flatMap nodes
  marks : (us.flatMap ownNodes).map isWrapped = marks names (ts.flatMap nodes)
  later : later = names ++ (ts.flatMap nodes).flatMap boundNames
  places : ∀ n ∈ us.flatMap nodes, n.LogsFirst source log
  outside : (us.flatMap nodes).filter isWrapped = (us.flatMap ownNodes).filter isWrapped

/-- Trees, and what the walk makes of them before one of them is wrapped itself. -/
structure Instrumented (source log : String) (names : List String) (ts us : List Tree)
    (later : List String) : Prop extends Rewritten source log names ts us later where
  quiet : ∀ u ∈ us, u.IsQuiet

section
variable {names mid later : List String} {ts us vs ws : List Tree}

/-- A first argument is wrapped. -/
theorem Rewritten.wrap {front back : List Tree} {p : Tree} {ps : List Tree}
    (h : Rewritten source log names ts (front ++ list (p :: ps) :: back) later)
    (hp : p.isLogging = false) :
    Rewritten source log names ts (front ++ list (logged source log p :: ps) :: back) later := by
  have hstrip : (list (logged source log p :: ps)).strip = (list (p :: ps)).strip := by
    rw [Tree.strip, Tree.strip, stripItems, stripItems, strip_logged]
  have hown : (list (logged source log p :: ps)).ownNodes = (list (p :: ps)).ownNodes := by
    rw [ownNodes, ownNodes, ownItemNodes, ownItemNodes, ownNodes_logged]
  have howns : (front ++ list (logged source log p :: ps) :: back).flatMap ownNodes =
      (front ++ list (p :: ps) :: back).flatMap ownNodes := by
    simp only [flatMap_append, flatMap_cons, hown]
  constructor
  · rw [← h.strip, map_append, map_cons, hstrip, map_append, map_cons]
  · rw [howns, h.own]
  · rw [howns, h.marks]
  · exact h.later
  · intro n hn
    have hplaces := h.places
    simp only [flatMap_append, flatMap_cons, nodes, itemNodes, mem_append]
      at hn hplaces
    obtain hn | (hn | hn) | hn := hn
    · exact hplaces n (.inl hn)
    · obtain rfl | hn | hn := mem_nodes_logged hn
      · exact logsFirst_logged hp
      · exact hplaces n (.inr (.inl (.inl hn)))
      · exact (logsFirst_of_not_logging (not_logging_injected source log) source log n hn).1
    · exact hplaces n (.inr (.inl (.inr hn)))
    · exact hplaces n (.inr (.inr hn))
  · rw [howns, ← h.outside]
    simp only [flatMap_append, flatMap_cons, nodes, itemNodes, filter_append,
      filter_isWrapped_logged hp]

theorem not_isLogging_node {kind : String} {gs : Fields}
    (h : ∀ g ∈ gs, g.2 ≠ logger) : (node kind gs).isLogging = false := by
  rw [isLogging, Bool.and_eq_false_iff, beq_eq_false_iff_ne]
  exact .inr fun hfunc => h _ (mem_fields_of_field? hfunc) rfl

theorem Rewritten.node {kind : String} {fs gs : Fields} (hkind : kind ≠ "Expression")
    (hbound : boundNames (node kind fs) = []) (hfst : gs.map Prod.fst = fs.map Prod.fst)
    (h : Rewritten source log names (fs.map Prod.snd) (gs.map Prod.snd) later)
    (hlogger : ∀ g ∈ gs, g.2 ≠ logger) (hfirst : (Tree.node kind gs).LogsFirst source log)
    (hmark : (Tree.node kind gs).isWrapped = callsPattern names (Tree.node kind fs)) :
    Instrumented source log names [Tree.node kind fs] [Tree.node kind gs] later := by
  have hquiet : (Tree.node kind gs).isLogging = false := not_isLogging_node hlogger
  have hstrip : (Tree.node kind gs).strip = Tree.node kind fs := by
    rw [Tree.strip, hquiet, if_neg (by decide), stripFields_eq, h.strip, hfst,
      ← zip_of_prod rfl rfl]
  have hown : (Tree.node kind gs).ownNodes =
      Tree.node kind gs :: (gs.map Prod.snd).flatMap ownNodes := by
    rw [ownNodes, hquiet, if_neg (by decide), ownFieldNodes_eq]
  constructor
  · constructor <;> simp only [map_singleton, flatMap_singleton, hown, nodes, fieldNodes_eq]
    · exact congrArg ([·]) hstrip
    · rw [map_cons, hstrip, h.own]
    · rw [map_cons, hmark, h.marks, Tree.marks, hbound, append_nil]
    · rw [flatMap_cons, hbound, nil_append, h.later]
    · exact forall_mem_cons.mpr ⟨hfirst, h.places⟩
    · rw [filter_cons, h.outside, filter_cons]
  · rw [forall_mem_singleton]
    refine ⟨fun he => ?_, hquiet, fun us he => ?_⟩
    · cases he
      exact hkind rfl
    · cases he

end

namespace Instrumented

variable {names mid later : List String} {ts us vs ws : List Tree}

theorem nil : Instrumented source log names [] [] names := by
  refine ⟨?_, by simp⟩
  constructor <;> simp [marks]

theorem append (h : Instrumented source log names ts us mid)
    (h' : Instrumented source log mid vs ws later) :
    Instrumented source log names (ts ++ vs) (us ++ ws) later where
  strip := by rw [map_append, h.strip, h'.strip]
  own := by rw [flatMap_append, map_append, h.own, h'.own, flatMap_append]
  marks := by
    rw [flatMap_append, map_append, h.marks, h'.marks, flatMap_append, marks_append, ← h.later]
  later := by
    rw [h'.later, h.later, flatMap_append, flatMap_append, append_assoc]
  quiet := forall_mem_append.mpr ⟨h.quiet, h'.quiet⟩
  places := by
    rw [flatMap_append]
    exact forall_mem_append.mpr ⟨h.places, h'.places⟩
  outside := by
    rw [flatMap_append, flatMap_append, filter_append, filter_append, h.outside, h'.outside]

theorem list (h : Instrumented source log names ts us later) :
    Instrumented source log names [list ts] [list us] later where
  strip := by rw [map_singleton, strip, stripItems_eq, h.strip]
  own := by
    simpa only [flatMap_singleton, ownNodes, nodes, ownItemNodes_eq, itemNodes_eq] using h.own
  marks := by
    simpa only [flatMap_singleton, ownNodes, nodes, ownItemNodes_eq, itemNodes_eq] using h.marks
  later := by simpa only [flatMap_singleton, nodes, itemNodes_eq] using h.later
  quiet := by
    rw [forall_mem_singleton]
    refine ⟨fun he => ?_, rfl, fun us he v hv => ?_⟩
    · cases he
    · cases he
      exact (h.quiet v hv).self
  places := by simpa only [flatMap_singleton, nodes, itemNodes_eq] using h.places
  outside := by
    simpa only [flatMap_singleton, ownNodes, nodes, ownItemNodes_eq, itemNodes_eq] using
      h.outside

theorem of_not_call {t : Tree} (h : ∀ n ∈ t.nodes, n.isKind "Call" = false) (ht : t.isSingle)
    (hlogger : t ≠ logger) (hlater : later = names ++ t.nodes.flatMap boundNames) :
    Instrumented source log names [t] [t] later := by
  have hquiet : ∀ n ∈ t.nodes, n.isLogging = false := fun n hn => isLogging_of_not_call (h n hn)
  have hself : t.isLogging = false := by
    cases t with
    | node kind fs => exact hquiet _ (by rw [nodes]; exact mem_cons_self)
    | list | leaf => rfl
  refine ⟨?_, forall_mem_singleton.mpr ⟨hlogger, hself, fun us he => ?_⟩⟩
  · constructor <;> simp only [map_singleton, flatMap_singleton]
    · rw [strip_eq_self t hquiet]
    · rw [ownNodes_eq_nodes t hquiet]
      have hnodes : t.nodes.map strip = t.nodes.map id :=
        map_congr_left fun n hn => strip_eq_self n fun m hm => hquiet m (nodes_subset hn hm)
      rw [hnodes, map_id]
    · rw [ownNodes_eq_nodes t hquiet, marks_of_not_call h]
    · exact hlater
    · exact fun n hn => (logsFirst_of_not_logging hquiet source log n hn).1
    · rw [ownNodes_eq_nodes t hquiet]
  · subst he
    cases ht

end Instrumented

/-! ### A node after its fields -/

section
variable {kind : String} {fs gs : Fields} {names later : List String}

theorem logsFirst_of_quiet (h : ∀ g ∈ gs, g.2.IsQuiet) : (node kind gs).LogsFirst source log where
  once hl := by
    rw [not_isLogging_node fun g hg => (h g hg).ne_logger] at hl
    cases hl
  field g hg := (h g hg).self
  item g hg ts hts i t ht hl := by
    rw [(h g hg).items ts hts t (mem_of_getElem? ht)] at hl
    cases hl

theorem isWrapped_of_quiet (h : ∀ g ∈ gs, g.2.IsQuiet) : (node kind gs).isWrapped = false := by
  by_contra hne
  obtain ⟨-, p, ps, hargs, hl⟩ := isWrapped_iff.mp (by simpa using hne)
  rw [(h _ (mem_fields_of_field? hargs)).items _ rfl p mem_cons_self] at hl
  cases hl

theorem exists_list_of_strip {u : Tree} {ts : List Tree} (hu : u.isLogging = false)
    (h : u.strip = list ts) : ∃ us, u = list us ∧ us.map strip = ts := by
  cases u with
  | node kind gs =>
    rw [strip, hu, if_neg (by decide)] at h
    cases h
  | list us =>
    rw [strip, stripItems_eq] at h
    cases h
    exact ⟨us, rfl, rfl⟩
  | leaf v =>
    rw [strip] at h
    cases h

theorem wrapFirst_eq_self {wrap : Tree → Tree}
    (h : (node kind gs).field? "args" = some (list [])) : wrapFirst wrap gs = gs := by
  induction gs with
  | nil => rfl
  | cons g gs ih =>
    obtain ⟨name, t⟩ := g
    by_cases hname : name = "args"
    · subst hname
      cases h
      rfl
    · rw [wrapFirst_cons_of_ne hname, ih]
      simpa [field?, hname] using h

theorem wrapFirst_split {p : Tree} {ps : List Tree} (wrap : Tree → Tree)
    (h : (node kind gs).field? "args" = some (list (p :: ps))) :
    ∃ front back, gs = front ++ ("args", list (p :: ps)) :: back ∧
      wrapFirst wrap gs = front ++ ("args", list (wrap p :: ps)) :: back ∧
      ∀ g ∈ front, g.1 ≠ "args" := by
  induction gs with
  | nil => cases h
  | cons g gs ih =>
    obtain ⟨name, t⟩ := g
    by_cases hname : name = "args"
    · subst hname
      cases h
      exact ⟨[], gs, rfl, rfl, by simp⟩
    · have hrest : (node kind gs).field? "args" = some (list (p :: ps)) := by
        simpa [field?, hname] using h
      obtain ⟨front, back, rfl, hwrap, hfront⟩ := ih hrest
      refine ⟨(name, t) :: front, back, rfl, ?_, forall_mem_cons.mpr ⟨hname, hfront⟩⟩
      rw [wrapFirst_cons_of_ne hname, hwrap]
      rfl

theorem Instrumented.wrapped {p : Tree} {ps : List Tree}
    (hfst : gs.map Prod.fst = fs.map Prod.fst)
    (h : Instrumented source log names (fs.map Prod.snd) (gs.map Prod.snd) later)
    (hargs : (node "Call" gs).field? "args" = some (Tree.list (p :: ps)))
    (hcalls : callsPattern names (node "Call" fs) = true) :
    Instrumented source log names [node "Call" fs]
      [node "Call" (wrapFirst (logged source log) gs)] later := by
  have hquiet : ∀ g ∈ gs, g.2.IsQuiet := forall_mem_map.mp h.quiet
  obtain ⟨front, back, rfl, hwrap, hfront⟩ := wrapFirst_split (logged source log) hargs
  have hp : ∀ q ∈ p :: ps, q.isLogging = false :=
    (hquiet ("args", Tree.list (p :: ps)) (by simp)).items _ rfl
  have hrewritten := h.toRewritten
  rw [map_append, map_cons] at hrewritten
  have hrest : ∀ g ∈ front ++ back, g.2.IsQuiet := fun g hg => hquiet g (by
    rw [mem_append] at hg ⊢
    exact hg.imp_right (mem_cons_of_mem _))
  -- a field that is not as it was is the list of arguments
  have hcases {g : String × Tree}
      (hg : g ∈ front ++ ("args", Tree.list (logged source log p :: ps)) :: back) :
      g.2.IsQuiet ∨ g = ("args", Tree.list (logged source log p :: ps)) := by
    simp only [mem_append, mem_cons] at hg
    obtain hg | hg | hg := hg
    · exact .inl (hrest g (mem_append_left _ hg))
    · exact .inr hg
    · exact .inl (hrest g (mem_append_right _ hg))
  have hlogger : ∀ g ∈ front ++ ("args", Tree.list (logged source log p :: ps)) :: back,
      g.2 ≠ logger := by
    intro g hg
    obtain hg | rfl := hcases hg
    · exact hg.ne_logger
    · nofun
  have hargs' :
      (node "Call" (front ++ ("args", Tree.list (logged source log p :: ps)) :: back)).field? "args" =
        some (Tree.list (logged source log p :: ps)) := by
    have hnone : front.find? (fun f => f.1 == "args") = none := by simpa using hfront
    simp [field?, find?_append, hnone]
  rw [hwrap]
  refine Rewritten.node (by decide) rfl (by simpa using hfst) ?_ hlogger ?_ ?_
  · rw [map_append, map_cons]
    exact hrewritten.wrap (hp p mem_cons_self)
  · refine ⟨fun hl => ?_, fun g hg => ?_, fun g hg ts hts i t ht hl => ?_⟩
    · rw [not_isLogging_node hlogger] at hl
      cases hl
    · obtain hg | rfl := hcases hg
      · exact hg.self
      · rfl
    · obtain hg | rfl := hcases hg
      · rw [hg.items ts hts t (mem_of_getElem? ht)] at hl
        cases hl
      · cases hts
        refine ⟨rfl, rfl, ?_⟩
        cases i with
        | zero => rfl
        | succ i =>
          rw [hp t (mem_cons_of_mem _ (mem_of_getElem? ht))] at hl
          cases hl
  · rw [hcalls, isWrapped_iff]
    exact ⟨rfl, _, _, hargs', isLogging_logged⟩

theorem Instrumented.node (hshaped : (node kind fs).Shaped) (hkind : kind ≠ "Expression")
    (himport : kind ≠ "Import") (hfst : gs.map Prod.fst = fs.map Prod.fst)
    (h : Instrumented source log names (fs.map Prod.snd) (gs.map Prod.snd) later) :
    Instrumented source log names [Tree.node kind fs]
      [Tree.node kind (if kind == "Call" && takesPattern names (Tree.node kind fs) then
        wrapFirst (logged source log) gs else gs)] later := by
  have hquiet : ∀ g ∈ gs, g.2.IsQuiet := forall_mem_map.mp h.quiet
  have hbound : boundNames (Tree.node kind fs) = [] := by simp [boundNames, isKind, himport]
  have hplain (hcalls : callsPattern names (Tree.node kind fs) = false) :
      Instrumented source log names [Tree.node kind fs] [Tree.node kind gs] later := by
    refine h.toRewritten.node hkind hbound hfst (fun g hg => (hquiet g hg).ne_logger)
      (logsFirst_of_quiet hquiet) ?_
    rw [hcalls, isWrapped_of_quiet hquiet]
  by_cases hcall : kind = "Call"
  · subst hcall
    obtain ⟨_, hargs, hlist⟩ := fieldIs_iff.mp (hshaped.args rfl)
    obtain ⟨args, rfl, -⟩ := isListOf_iff.mp hlist
    have hcalls := callsPattern_eq hshaped rfl hargs names
    -- the arguments stand in the same field after the walk, as many as before
    have hstrip : stripFields gs = fs := by
      rw [stripFields_eq, h.strip, hfst, ← zip_of_prod rfl rfl]
    rw [← hstrip, field?_stripFields] at hargs
    obtain ⟨u, hu, hargs⟩ := Option.map_eq_some_iff.mp hargs
    have huquiet := hquiet _ (mem_fields_of_field? hu)
    obtain ⟨us, rfl, hus⟩ := exists_list_of_strip huquiet.self hargs
    cases htakes : takesPattern names (Tree.node "Call" fs) with
    | false =>
      rw [htakes, Bool.false_and] at hcalls
      exact hplain hcalls
    | true =>
      rw [htakes, Bool.true_and, ← hus, isEmpty_map] at hcalls
      cases us with
      | nil =>
        rw [wrapFirst_eq_self hu, ite_self]
        exact hplain hcalls
      | cons p ps => exact h.wrapped hfst hu hcalls
  · have hne : (kind == "Call") = false := by simpa using hcall
    rw [hne]
    exact hplain (by simp [callsPattern, isKind, hcall])

end

/-! ### The walk -/

theorem instrumentFields_fst (fs : Fields) (names : List String) :
    (instrumentFields source log fs names).1.map Prod.fst = fs.map Prod.fst := by
  induction fs generalizing names with
  | nil => rw [instrumentFields]
  | cons f fs ih => rw [instrumentFields_cons, map_cons, ih, map_cons]

theorem instrumented_fields {fs : Fields}
    (h : ∀ f ∈ fs, ∀ names, Instrumented source log names [f.2]
      [(instrumentTree source log f.2 names).1] (instrumentTree source log f.2 names).2)
    (names : List String) :
    Instrumented source log names (fs.map Prod.snd)
      ((instrumentFields source log fs names).1.map Prod.snd)
      (instrumentFields source log fs names).2 := by
  induction fs generalizing names with
  | nil =>
    rw [instrumentFields]
    exact .nil
  | cons f fs ih =>
    rw [forall_mem_cons] at h
    rw [instrumentFields_cons]
    exact (h.1 names).append (ih h.2 _)

theorem instrumented_items {ts : List Tree} (hts : ∀ t ∈ ts, t.isSingle = true)
    (h : ∀ t ∈ ts, ∀ names, Instrumented source log names [t]
      [(instrumentTree source log t names).1] (instrumentTree source log t names).2)
    (names : List String) :
    Instrumented source log names ts (instrumentItems source log ts names).1
      (instrumentItems source log ts names).2 := by
  induction ts generalizing names with
  | nil =>
    rw [instrumentItems]
    exact .nil
  | cons t ts ih =>
    rw [forall_mem_cons] at h hts
    have hitem : instrumentItem source log t names = instrumentTree source log t names := by
      cases t with
      | node kind fs => rfl
      | list us => cases hts.1
      | leaf v => rw [instrumentItem, instrumentTree, ite_self]
    rw [instrumentItems_cons, hitem]
    exact (h.1 names).append (ih hts.2 h.2 _)

theorem instrumented_import {kind : String} {fs : Fields}
    (hshaped : (node kind fs).Shaped) (hkind : kind = "Import" ∨ kind = "ImportFrom")
    (names : List String) :
    Instrumented source log names [node kind fs]
      [(instrumentTree source log (node kind fs) names).1]
      (instrumentTree source log (node kind fs) names).2 := by
  have haliases := hshaped.imports (by simpa [isKind] using hkind)
  rw [nodes, tail_cons] at haliases
  have hother (k : String) (hk : k ≠ "alias") : ∀ n ∈ fieldNodes fs, n.isKind k = false := by
    intro n hn
    have halias := haliases n hn
    cases n <;> simp_all [isKind, Ne.symm hk]
  have hcall : ∀ n ∈ (node kind fs).nodes, n.isKind "Call" = false := by
    rw [nodes, forall_mem_cons]
    refine ⟨?_, hother "Call" (by decide)⟩
    obtain rfl | rfl := hkind <;> rfl
  have hbound : (node kind fs).nodes.flatMap boundNames = boundNames (node kind fs) := by
    have hnone : (fieldNodes fs).flatMap boundNames = [] := by
      rw [flatMap_eq_nil_iff]
      intro n hn
      rw [boundNames, hother "Import" (by decide) n hn, if_neg (by decide)]
    rw [nodes, flatMap_cons, hnone, append_nil]
  obtain rfl | rfl := hkind
  · rw [instrumentTree, newAliases_eq hshaped rfl]
    exact .of_not_call hcall rfl (by simp [logger]) (by rw [hbound])
  · rw [instrumentTree]
    exact .of_not_call hcall rfl (by simp [logger]) (by rw [hbound]; simp [boundNames, isKind])

theorem instrumented_tree (source log : String) (t : Tree) :
    (∀ n ∈ t.nodes, n.Shaped) → (∀ n ∈ t.nodes, n.isKind "Expression" = false) →
      (t.isSingle ∨ t.isListOf isSingle) → ∀ names,
      Instrumented source log names [t] [(instrumentTree source log t names).1]
        (instrumentTree source log t names).2 := by
  induction t using parts_induction with
  | hnode kind fs ih =>
    intro hshaped hparsed _ names
    rw [nodes, forall_mem_cons] at hshaped hparsed
    by_cases himport : kind = "Import" ∨ kind = "ImportFrom"
    · exact instrumented_import hshaped.1 himport names
    · rw [not_or] at himport
      rw [instrumentTree_node_eq himport.1 himport.2]
      refine .node hshaped.1 (by simpa [isKind] using hparsed.1) himport.1
        (instrumentFields_fst fs names) (instrumented_fields (fun f hf => ?_) names)
      refine ih f hf (fun n hn => ?_) (fun n hn => ?_) (hshaped.1.fields f hf)
      · exact hshaped.2 n (mem_fieldNodes.mpr ⟨f, hf, hn⟩)
      · exact hparsed.2 n (mem_fieldNodes.mpr ⟨f, hf, hn⟩)
  | hlist ts ih =>
    intro hshaped hparsed hlist names
    obtain ⟨us, he, hitems⟩ := isListOf_iff.mp (hlist.resolve_left (by simp [isSingle]))
    cases he
    rw [instrumentTree_list]
    refine .list (instrumented_items hitems (fun t ht => ih t ht ?_ ?_ (.inl (hitems t ht))) names)
    · exact fun n hn => hshaped n (mem_itemNodes.mpr ⟨t, ht, hn⟩)
    · exact fun n hn => hparsed n (mem_itemNodes.mpr ⟨t, ht, hn⟩)
  | hleaf v =>
    intro _ _ _ names
    rw [instrumentTree]
    have hlogger : leaf v ≠ logger := by
      intro he
      cases he
    exact .of_not_call (by simp [nodes]) rfl hlogger (by simp [nodes])

/-! ### Instrumented programs -/

/-- A tree that is parsed from a source file: an expression by itself is never part of it. -/
def IsParsed (t : Tree) : Prop := t.IsSyntaxTree ∧ ∀ n ∈ t.nodes, n.isKind "Expression" = false

instance : DecidablePred IsParsed := fun t =>
  inferInstanceAs (Decidable (t.IsSyntaxTree ∧ ∀ n ∈ t.nodes, n.isKind "Expression" = false))

/-- The nodes `ms` are the nodes of `ps` one by one with patterns logged in them, and the wrapped ones
among them are the calls that take a pattern. Their records are `cs`, apart from those at which the
search for patterns breaks off. -/
inductive LogsRecorded : List Tree → List Tree → List (Nat × Tree) → List PatternCall → Prop
  | nil {earlier : List Tree} : LogsRecorded earlier [] [] []
  | recorded {earlier ms : List Tree} {ps : List (Nat × Tree)} {m n : Tree} {room : Nat}
      {c : PatternCall} {cs : List PatternCall} (hstrip : m.strip = n) (hwrapped : m.isWrapped = true)
      (h : IsRecordOf (room - 2) (earlier.flatMap boundNames) n c)
      (hrest : LogsRecorded (earlier ++ [n]) ms ps cs) :
      LogsRecorded earlier (m :: ms) ((room, n) :: ps) (c :: cs)
  | lost {earlier ms : List Tree} {ps : List (Nat × Tree)} {m n : Tree} {room : Nat}
      {cs : List PatternCall} (hstrip : m.strip = n) (hwrapped : m.isWrapped = true)
      (hcall : IsPatternCall (earlier.flatMap boundNames) n)
      (h : BreaksOff (room - 2) (earlier.flatMap boundNames) n)
      (hrest : LogsRecorded (earlier ++ [n]) ms ps cs) :
      LogsRecorded earlier (m :: ms) ((room, n) :: ps) cs
  | other {earlier ms : List Tree} {ps : List (Nat × Tree)} {m n : Tree} {room : Nat}
      {cs : List PatternCall} (hstrip : m.strip = n) (hwrapped : m.isWrapped = false)
      (h : ¬IsPatternCall (earlier.flatMap boundNames) n)
      (hrest : LogsRecorded (earlier ++ [n]) ms ps cs) :
      LogsRecorded earlier (m :: ms) ((room, n) :: ps) cs

theorem Records.logsRecorded {earlier : List Tree} {ps : List (Nat × Tree)} {cs : List PatternCall}
    (h : Records earlier ps cs) (hshaped : ∀ n ∈ ps.map Prod.snd, n.Shaped) {ms : List Tree}
    (hstrip : ms.map strip = ps.map Prod.snd)
    (hmarks : ms.map isWrapped = marks (earlier.flatMap boundNames) (ps.map Prod.snd)) :
    LogsRecorded earlier ms ps cs := by
  induction h generalizing ms with
  | nil =>
    rw [map_nil, map_eq_nil_iff] at hstrip
    subst hstrip
    exact .nil
  | @record earlier ps room n c cs h _ ih =>
    obtain ⟨m, ms, rfl, hm, hms⟩ := map_eq_cons_iff.mp hstrip
    rw [map_cons, forall_mem_cons] at hshaped
    rw [map_cons, map_cons, marks, cons.injEq] at hmarks
    refine .recorded hm ?_ h (ih hshaped.2 hms (by simpa using hmarks.2))
    obtain ⟨owner, args, keywords, hcall, hfunction, howner, hne, -⟩ := h
    rw [hmarks.1, callsPattern_iff hshaped.1]
    exact ⟨owner, _, args, keywords, hcall, hfunction, howner, hne⟩
  | @skip earlier ps room n cs h _ ih =>
    obtain ⟨m, ms, rfl, hm, hms⟩ := map_eq_cons_iff.mp hstrip
    rw [map_cons, forall_mem_cons] at hshaped
    rw [map_cons, map_cons, marks, cons.injEq] at hmarks
    have hrest := ih hshaped.2 hms (by simpa using hmarks.2)
    by_cases hcall : IsPatternCall (earlier.flatMap boundNames) n
    · refine .lost hm ?_ hcall (hcall.breaksOff hshaped.1 h) hrest
      rw [hmarks.1, callsPattern_iff hshaped.1]
      exact hcall
    · refine .other hm ?_ hcall hrest
      rwa [hmarks.1, Bool.eq_false_iff, Ne, callsPattern_iff hshaped.1]

/-- The tree `u` is the tree `t` with its patterns logged. -/
structure LogsPatterns (source log : String) (t u : Tree) : Prop where
  /-- Without the logging calls the tree is what it was. -/
  strip : u.strip = t
  root : u.isLogging = false
  /-- Only first arguments are logged, and none of them twice. -/
  places : ∀ n ∈ u.nodes, n.LogsFirst source log
  outside : u.nodes.filter isWrapped = u.ownNodes.filter isWrapped
  /-- The wrapped calls are those that are recorded or lost, in the same order. -/
  recorded : ∀ room, t.walkCalls ≤ room →
    ∃ w, findings room t = .ok w ∧ LogsRecorded [] u.ownNodes (t.placed room) w.calls

/-- A program that gives the module of patterns the names of the parameters of the wrapper. -/
def renamingProgram : Tree :=
  let imports := node "Import" [("names", list [
    node "alias" [("name", leaf (.str "re")), ("asname", leaf (.str "f"))],
    node "alias" [("name", leaf (.str "re")), ("asname", leaf (.str "json"))]])]
  let inner := callOn "json" "escape" [node "Constant" [("value", leaf (.str "a"))]] []
  node "Module" [("body", list [
    imports, node "Expr" [("value", callOn "f" "compile" [inner] [])]])]

end RegexCorpus.Tree
