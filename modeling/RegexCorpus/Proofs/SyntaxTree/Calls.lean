import RegexCorpus.Proofs.SyntaxTree.Flags
import RegexCorpus.Proofs.Text.Join
import RegexCorpus.SyntaxTree.Calls

/-!
# Calls that are found

The walk through a syntax tree goes through its nodes in pre-order. It records each call of a
function that takes a pattern through a name to which an earlier import bound the module, wherever
the call stands, and nothing else. What it may spend on a call is what is left of its room there.
-/

namespace RegexCorpus.Tree
open List

/-! ### What is to be found -/

/-- The name that an alias binds to the module of patterns. -/
def boundName? (t : Tree) : Option String :=
  if t.textField? "name" = some patternModule then
    some ((t.textField? "asname").getD patternModule)
  else none

/-- The names that a node binds to the module of patterns, which only imports do. -/
def boundNames (n : Tree) : List String :=
  if n.isKind "Import" then (((n.field? "names").bind items?).getD []).filterMap boundName? else []

def IsAttributeOf (t : Tree) (owner function : String) : Prop :=
  t.isKind "Attribute" ∧ t.textField? "attr" = some function ∧
    ∃ v, t.field? "value" = some v ∧ v.isKind "Name" ∧ v.textField? "id" = some owner

/-- The node calls the function on the name, with these arguments. -/
structure IsCallOf (n : Tree) (owner function : String) (args keywords : List Tree) : Prop where
  kind : n.isKind "Call"
  func : ∃ f, n.field? "func" = some f ∧ f.IsAttributeOf owner function
  args : n.field? "args" = some (.list args)
  keywords : n.field? "keywords" = some (.list keywords)

def flagsString : Option (List String) → String
  | some ss => Text.join "|" ss
  | none => PatternCall.dynamicFlags

def isFlagsKeyword (k : Tree) : Bool := k.textField? "arg" == some "flags"

/-- The text of the flags of a call, if the walk over them comes to its end. -/
inductive FlagsOf (room : Nat) (names : List String) (function : String)
    (args keywords : List Tree) : String → Prop
  | flagless (h : function = "escape") :
      FlagsOf room names function args keywords PatternCall.flagless
  | positional {i : Nat} {t : Tree} {r : Option (List String)}
      (hindex : PatternCall.flagsIndex? function = some i) (ht : args[i]? = some t)
      (hread : readFlags room names t = .ok r) :
      FlagsOf room names function args keywords (flagsString r)
  | keyword {i : Nat} {k t : Tree} {r : Option (List String)}
      (hindex : PatternCall.flagsIndex? function = some i) (hargs : args.length ≤ i)
      (hk : keywords.find? isFlagsKeyword = some k) (ht : k.field? "value" = some t)
      (hread : readFlags room names t = .ok r) :
      FlagsOf room names function args keywords (flagsString r)
  | empty {i : Nat} (hindex : PatternCall.flagsIndex? function = some i)
      (hargs : args.length ≤ i) (hk : keywords.find? isFlagsKeyword = none) :
      FlagsOf room names function args keywords ""

/-- The record of a node, given the names of the module of patterns. -/
def IsRecordOf (room : Nat) (names : List String) (n : Tree) (c : PatternCall) : Prop :=
  ∃ owner args keywords, IsCallOf n owner c.function args keywords ∧
    c.function ∈ PatternCall.functions ∧ owner ∈ names ∧ args ≠ [] ∧
    c.pattern = PatternCall.dynamicPattern ∧ n.hasText room ∧
    FlagsOf room names c.function args keywords c.flags

mutual

/-- The nodes of a tree in pre-order, each with the room that the walk has where it meets it. -/
def placed (room : Nat) : Tree → List (Nat × Tree)
  | node kind fs => (room, node kind fs) :: placedFields (room - opening kind) fs
  | list ts => placedItems room ts
  | leaf _ => []

def placedFields (room : Nat) : List (String × Tree) → List (Nat × Tree)
  | [] => []
  | (_, t) :: fs => placed room t ++ placedFields room fs

def placedItems (room : Nat) : List Tree → List (Nat × Tree)
  | [] => []
  | t :: ts => placed room t ++ placedItems room ts

end

/-- The records of nodes that come after `earlier` ones: of each node its record, if it has one. A
call is looked at two calls inside the walk. -/
inductive Records : List Tree → List (Nat × Tree) → List PatternCall → Prop
  | nil {earlier : List Tree} : Records earlier [] []
  | record {earlier : List Tree} {ps : List (Nat × Tree)} {room : Nat} {n : Tree} {c : PatternCall}
      {cs : List PatternCall} (h : IsRecordOf (room - 2) (earlier.flatMap boundNames) n c)
      (hrest : Records (earlier ++ [n]) ps cs) : Records earlier ((room, n) :: ps) (c :: cs)
  | skip {earlier : List Tree} {ps : List (Nat × Tree)} {room : Nat} {n : Tree}
      {cs : List PatternCall} (h : ∀ c, ¬IsRecordOf (room - 2) (earlier.flatMap boundNames) n c)
      (hrest : Records (earlier ++ [n]) ps cs) : Records earlier ((room, n) :: ps) cs

/-! ### Places -/

theorem placedFields_snd {fs : Fields}
    (h : ∀ f ∈ fs, ∀ room, (f.2.placed room).map Prod.snd = f.2.nodes) (room : Nat) :
    (placedFields room fs).map Prod.snd = fieldNodes fs := by
  induction fs with
  | nil => rfl
  | cons f fs ih =>
    rw [forall_mem_cons] at h
    rw [placedFields, fieldNodes, map_append, h.1, ih h.2]

theorem placedItems_snd {ts : List Tree}
    (h : ∀ t ∈ ts, ∀ room, (t.placed room).map Prod.snd = t.nodes) (room : Nat) :
    (placedItems room ts).map Prod.snd = itemNodes ts := by
  induction ts with
  | nil => rfl
  | cons t ts ih =>
    rw [forall_mem_cons] at h
    rw [placedItems, itemNodes, map_append, h.1, ih h.2]

theorem placed_snd (t : Tree) (room : Nat) : (t.placed room).map Prod.snd = t.nodes := by
  induction t using parts_induction generalizing room with
  | hnode kind fs ih => rw [placed, nodes, map_cons, placedFields_snd ih]
  | hlist ts ih => rw [placed, nodes, placedItems_snd ih]
  | hleaf v => rw [placed, nodes, map_nil]

/-! ### Imports -/

theorem importedAs_cons {t : Tree} (h : t.isAlias = true) (ts : List Tree) :
    importedAs (t :: ts) = (boundName? t).toList ++ importedAs ts := by
  -- the name of an alias can be read, so that the import is read to its end
  rw [isAlias, Bool.and_eq_true, fieldIs_iff] at h
  obtain ⟨⟨name, hname, htext⟩, hasname⟩ := h
  obtain ⟨s, rfl⟩ := isText_iff.mp htext
  rw [importedAs, hname, boundName?, textField?, hname]
  by_cases hs : s = patternModule
  · cases hother : t.field? "asname" with
    | none => simp [hs, textField?, hother, text?]
    | some other =>
      rw [hother] at hasname
      split at hasname
      · cases ‹some _ = none›
      · cases ‹some _ = some _›
        simp [hs, textField?, hother, text?]
      · cases ‹some _ = some _›
        obtain ⟨u, rfl⟩ := isText_iff.mp hasname
        simp [hs, textField?, hother, text?]
  · simp [hs, text?]

theorem importedAs_eq {ts : List Tree} (h : ∀ t ∈ ts, t.isAlias = true) :
    importedAs ts = ts.filterMap boundName? := by
  induction ts with
  | nil => rfl
  | cons t ts ih =>
    rw [forall_mem_cons] at h
    rw [importedAs_cons h.1, ih h.2, filterMap_cons]
    cases boundName? t <;> rfl

theorem newAliases_eq {n : Tree} (h : n.Shaped) (hkind : n.isKind "Import") :
    newAliases n = boundNames n := by
  obtain ⟨_, hnames, hlist⟩ := fieldIs_iff.mp (h.names hkind)
  obtain ⟨ts, rfl, hts⟩ := isListOf_iff.mp hlist
  simp only [newAliases, boundNames, hkind, hnames, if_true]
  exact importedAs_eq hts

/-! ### The walk -/

def record? (room : Nat) (names : List String) (n : Tree) : Option PatternCall :=
  if n.isKind "Call" then patternCall? room names n else none

def visit (w : Findings) (p : Nat × Tree) : Findings :=
  { aliases := w.aliases ++ boundNames p.2
    calls := w.calls ++ (record? (p.1 - 2) w.aliases p.2).toList }

theorem visit_of_idle {p : Nat × Tree} (hcall : p.2.isKind "Call" = false)
    (himport : p.2.isKind "Import" = false) (w : Findings) : visit w p = w := by
  simp [visit, record?, boundNames, hcall, himport]

theorem foldl_visit_aliases {ps : List (Nat × Tree)}
    (h : ∀ n ∈ ps.map Prod.snd, n.isKind "alias" = true) (w : Findings) : ps.foldl visit w = w := by
  induction ps with
  | nil => rfl
  | cons p ps ih =>
    rw [map_cons, forall_mem_cons] at h
    have hother {kind : String} (hkind : kind ≠ "alias") : p.2.isKind kind = false := by
      cases hp : p.2 <;> simp_all [isKind, Ne.symm hkind]
    rw [foldl_cons, visit_of_idle (hother (by decide)) (hother (by decide)), ih h.2]

/-- An import is looked at and left aside, every other node is entered. -/
theorem walk_node {kind : String} {fs : Fields} (h : (node kind fs).Shaped)
    (room : Nat) (w : Findings) :
    walk room (node kind fs) w =
      if kind = "Import" ∨ kind = "ImportFrom" then visit w (room, node kind fs)
      else walkFields (room - opening kind) fs (visit w (room, node kind fs)) := by
  by_cases himport : kind = "Import"
  · subst himport
    rw [if_pos (.inl rfl), walk, newAliases_eq h rfl]
    simp [visit, record?, isKind]
  by_cases hfrom : kind = "ImportFrom"
  · subst hfrom
    rw [if_pos (.inr rfl), walk, visit_of_idle rfl rfl]
  rw [if_neg (by simp [himport, hfrom])]
  by_cases hcall : kind = "Call"
  · subst hcall
    rw [walk] <;> simp [visit, record?, isKind, boundNames]
  · have hplain := visit_of_idle (p := (room, node kind fs)) (by simpa [isKind] using hcall)
      (by simpa [isKind] using himport) w
    rw [walk, hplain]
    · simp [hcall]
    all_goals assumption

section
variable {room : Nat}

theorem walkFields_eq_foldl {fs : Fields}
    (h : ∀ f ∈ fs, ∀ w, walk room f.2 w = (f.2.placed room).foldl visit w) (w : Findings) :
    walkFields room fs w = (placedFields room fs).foldl visit w := by
  induction fs generalizing w with
  | nil => rfl
  | cons f fs ih =>
    rw [forall_mem_cons] at h
    rw [walkFields, placedFields, foldl_append, h.1, ih h.2]

theorem walkItems_eq_foldl {ts : List Tree} (hts : ∀ t ∈ ts, t.isSingle = true)
    (h : ∀ t ∈ ts, ∀ w, walk room t w = (t.placed room).foldl visit w) (w : Findings) :
    walkItems room ts w = (placedItems room ts).foldl visit w := by
  induction ts generalizing w with
  | nil => rfl
  | cons t ts ih =>
    rw [forall_mem_cons] at h hts
    rw [placedItems, foldl_append]
    cases t with
    | node kind fs => rw [walkItems, h.1, ih hts.2 h.2]
    | list us => simp [isSingle] at hts
    | leaf v => rw [walkItems, ih hts.2 h.2, placed, foldl_nil]

end

theorem walk_eq_foldl (t : Tree) :
    (∀ n ∈ t.nodes, n.Shaped) → (t.isSingle ∨ t.isListOf isSingle) →
      ∀ room w, walk room t w = (t.placed room).foldl visit w := by
  induction t using parts_induction with
  | hnode kind fs ih =>
    intro hshaped _ room w
    rw [nodes, forall_mem_cons] at hshaped
    rw [walk_node hshaped.1, placed, foldl_cons]
    split
    · -- the walk leaves out what is below an import, where there are only aliases
      next himport =>
      have haliases := hshaped.1.imports (by simpa [isKind] using himport)
      rw [nodes, tail_cons, ← placedFields_snd fun f _ => f.2.placed_snd] at haliases
      rw [foldl_visit_aliases haliases]
    · refine walkFields_eq_foldl (fun f hf => ih f hf ?_ (hshaped.1.fields f hf) _) _
      exact fun n hn => hshaped.2 n (mem_fieldNodes.mpr ⟨f, hf, hn⟩)
  | hlist ts ih =>
    -- the walk leaves out lists in lists, of which there are none
    intro hshaped hlist room w
    obtain ⟨us, he, hitems⟩ := isListOf_iff.mp (hlist.resolve_left (by simp [isSingle]))
    cases he
    refine walkItems_eq_foldl hitems (fun t ht => ih t ht ?_ (.inl (hitems t ht)) room) w
    exact fun n hn => hshaped n (mem_itemNodes.mpr ⟨t, ht, hn⟩)
  | hleaf v => exact fun _ _ room w => rfl

/-! ### Records -/

section
variable {room : Nat} {names : List String} {n : Tree} {args keywords : List Tree}
variable {function : String}

theorem calledFunction?_eq_some {f : Tree} (hf : n.field? "func" = some f)
    (h : (f.isExpression && (f.field? "value").all isExpression) = true) :
    calledFunction? names n = some function ↔
      ∃ owner, f.IsAttributeOf owner function ∧ owner ∈ names ∧
        function ∈ PatternCall.functions := by
  rw [Bool.and_eq_true] at h
  simp only [calledFunction?, hf, Option.bind_eq_bind, Option.bind_some, Option.bind_eq_some_iff]
  constructor
  · rintro ⟨v, hv, owner, hid, name, hattr, hcalled⟩
    split at hcalled
    · next hnames =>
      cases hcalled
      rw [hv, Option.all_some] at h
      rw [Bool.and_eq_true, contains_iff_mem, contains_iff_mem] at hnames
      exact ⟨owner, ⟨isKind_attribute h.1 hattr, hattr, v, hv, isKind_name h.2 hid, hid⟩, hnames⟩
    · cases hcalled
  · rintro ⟨owner, ⟨-, hattr, v, hv, -, hid⟩, howner, hfunction⟩
    exact ⟨v, hv, owner, hid, function, hattr, by simp [howner, hfunction]⟩

theorem flagsKeyword?_eq (h : ∀ k ∈ keywords, k.isKeyword = true) :
    flagsKeyword? keywords = some ((keywords.find? isFlagsKeyword).bind (·.field? "value")) := by
  induction keywords with
  | nil => rfl
  | cons k ks ih =>
    rw [forall_mem_cons] at h
    obtain ⟨hnode, hvalue⟩ := Bool.and_eq_true_iff.mp h.1
    obtain ⟨kind, fs, rfl⟩ := isNode_iff.mp hnode
    obtain ⟨v, hv, -⟩ := fieldIs_iff.mp hvalue
    rw [flagsKeyword?, find?_cons, isFlagsKeyword]
    split
    · next hflags => simp [hflags, hv]
    · next hflags => simp [hflags, ih h.2]

theorem flagsIndex?_eq_none (h : function ∈ PatternCall.functions) :
    PatternCall.flagsIndex? function = none ↔ function = "escape" := by
  have hall : ∀ f ∈ PatternCall.functions,
      PatternCall.flagsIndex? f = none ↔ f = "escape" := by decide
  exact hall function h

/-- The tree of the flags: the argument in their place, else the keyword argument. -/
def flagsSource? (args keywords : List Tree) (i : Nat) : Option Tree :=
  args[i]?.or ((keywords.find? isFlagsKeyword).bind (·.field? "value"))

/-- The node calls `function` of the module of patterns, and `t` is what it takes for flags. -/
structure TakesFlags (aliases : List String) (n : Tree) (function : String) (t : Tree) : Prop where
  shaped : n.Shaped
  known : function ∈ PatternCall.functions
  call : ∃ owner ∈ aliases, ∃ args keywords i, IsCallOf n owner function args keywords ∧
    args ≠ [] ∧ PatternCall.flagsIndex? function = some i ∧ flagsSource? args keywords i = some t

theorem flagsTree?_eq (hkeywords : n.field? "keywords" = some (.list keywords))
    (h : ∀ k ∈ keywords, k.isKeyword = true) (i : Nat) :
    flagsTree? n args i = some (flagsSource? args keywords i) := by
  rw [flagsTree?, flagsSource?]
  cases args[i]? with
  | some t => rfl
  | none =>
    rw [hkeywords, Option.none_or]
    exact flagsKeyword?_eq h

theorem isNode_flagsSource (hargs : ∀ a ∈ args, a.isNode = true)
    (hkeywords : ∀ k ∈ keywords, k.isKeyword = true) {i : Nat} {t : Tree}
    (h : flagsSource? args keywords i = some t) : t.isNode = true := by
  obtain h | ⟨-, h⟩ := Option.or_eq_some_iff.mp h
  · exact hargs t (mem_of_getElem? h)
  · obtain ⟨k, hk, hv⟩ := Option.bind_eq_some_iff.mp h
    have hkeyword := hkeywords k (mem_of_find?_eq_some hk)
    obtain ⟨v, hv', hnode⟩ := fieldIs_iff.mp (Bool.and_eq_true_iff.mp hkeyword).2
    rw [hv', Option.some.injEq] at hv
    exact hv ▸ hnode

/-- The text of flags, if the walk over them comes to its end. -/
def sourceText? (room : Nat) (names : List String) : Option Tree → Option String
  | none => some ""
  | some t =>
    match readFlags room names t with
    | .ok r => some (flagsString r)
    | .error _ => none

theorem flagsText?_eq (hargs : ∀ a ∈ args, a.isNode = true)
    (hkeywords : n.field? "keywords" = some (.list keywords))
    (hkeyword : ∀ k ∈ keywords, k.isKeyword = true) {i : Nat}
    (hindex : PatternCall.flagsIndex? function = some i) :
    flagsText? room names n args function =
      sourceText? room names (flagsSource? args keywords i) := by
  rw [flagsText?, hindex]
  simp only [flagsTree?_eq hkeywords hkeyword]
  cases hsource : flagsSource? args keywords i with
  | none => rfl
  | some t =>
    obtain ⟨kind, fs, rfl⟩ := isNode_iff.mp (isNode_flagsSource hargs hkeyword hsource)
    rw [sourceText?]
    dsimp only
    cases readFlags room names (node kind fs) with
    | ok r => cases r <;> rfl
    | error e => rfl

theorem flagsOf_iff {i : Nat} (hindex : PatternCall.flagsIndex? function = some i)
    (hkeywords : ∀ k ∈ keywords, k.isKeyword = true) {s : String} :
    FlagsOf room names function args keywords s ↔
      sourceText? room names (flagsSource? args keywords i) = some s := by
  have hsame {j : Nat} (hj : PatternCall.flagsIndex? function = some j) : i = j :=
    Option.some.inj (hindex.symm.trans hj)
  constructor
  · rintro (rfl | ⟨hj, ht, hread⟩ | ⟨hj, hargs, hk, ht, hread⟩ | ⟨hj, hargs, hk⟩)
    · cases hindex
    · simp [flagsSource?, sourceText?, hsame hj, ht, hread]
    · simp [flagsSource?, sourceText?, hsame hj, getElem?_eq_none hargs, hk, ht, hread]
    · simp [flagsSource?, sourceText?, hsame hj, getElem?_eq_none hargs, hk]
  · have hread {t : Tree} (h : sourceText? room names (some t) = some s) :
        ∃ r, readFlags room names t = .ok r ∧ flagsString r = s := by
      rw [sourceText?] at h
      split at h
      · exact ⟨_, ‹_›, Option.some.inj h⟩
      · cases h
    rw [flagsSource?]
    cases harg : args[i]? with
    | some t =>
      intro h
      obtain ⟨r, hr, rfl⟩ := hread h
      exact .positional hindex harg hr
    | none =>
      have hlength := getElem?_eq_none_iff.mp harg
      rw [Option.none_or]
      cases hk : keywords.find? isFlagsKeyword with
      | none =>
        rintro ⟨⟩
        exact .empty hindex hlength hk
      | some k =>
        have hkeyword := hkeywords k (mem_of_find?_eq_some hk)
        obtain ⟨v, hv, -⟩ := fieldIs_iff.mp (Bool.and_eq_true_iff.mp hkeyword).2
        rw [Option.bind_some, hv]
        intro h
        obtain ⟨r, hr, rfl⟩ := hread h
        exact .keyword hindex hlength hk hv hr

theorem flagsText?_eq_some (hargs : ∀ a ∈ args, a.isNode = true)
    (hkeywords : n.field? "keywords" = some (.list keywords))
    (hkeyword : ∀ k ∈ keywords, k.isKeyword = true) (hfunction : function ∈ PatternCall.functions)
    {flags : String} :
    flagsText? room names n args function = some flags ↔
      FlagsOf room names function args keywords flags := by
  cases hindex : PatternCall.flagsIndex? function with
  | none =>
    rw [flagsText?, hindex]
    constructor
    · rintro ⟨⟩
      exact .flagless ((flagsIndex?_eq_none hfunction).mp hindex)
    · rintro (_ | ⟨hi⟩ | ⟨hi⟩ | ⟨hi⟩)
      · rfl
      all_goals simp [hindex] at hi
  | some i => rw [flagsText?_eq hargs hkeywords hkeyword hindex, flagsOf_iff hindex hkeyword]

theorem patternCall?_eq_some (hargs : n.field? "args" = some (.list args)) {c : PatternCall} :
    patternCall? room names n = some c ↔
      calledFunction? names n = some c.function ∧ args ≠ [] ∧
        c.pattern = PatternCall.dynamicPattern ∧ n.hasText room ∧
        flagsText? room names n args c.function = some c.flags := by
  simp only [patternCall?, Option.bind_eq_bind, Option.bind_eq_some_iff, hargs, Option.some.injEq,
    exists_eq_left', items?, Option.guard_eq_some']
  constructor
  · rintro ⟨function, hfunction, _, htext, a, ha, flags, hflags, rfl⟩
    exact ⟨hfunction, ne_nil_of_mem (mem_of_head? ha), rfl, htext, hflags⟩
  · rintro ⟨hfunction, hne, hpattern, htext, hflags⟩
    obtain ⟨a, as, rfl⟩ := exists_cons_of_ne_nil hne
    exact ⟨c.function, hfunction, (), htext, a, rfl, c.flags, hflags, by rw [← hpattern]⟩

theorem IsCallOf.isKeyword (h : n.Shaped) {owner : String}
    (hcall : IsCallOf n owner function args keywords) : ∀ k ∈ keywords, k.isKeyword = true := by
  have hlist := h.keywords hcall.kind
  rw [fieldIs, hcall.keywords, Option.any_some, isListOf, all_eq_true] at hlist
  exact hlist

theorem IsCallOf.isNode (h : n.Shaped) {owner : String}
    (hcall : IsCallOf n owner function args keywords) : ∀ a ∈ args, a.isNode = true := by
  have hlist := h.args hcall.kind
  rw [fieldIs, hcall.args, Option.any_some, isListOf, all_eq_true] at hlist
  exact hlist

theorem record?_eq_some (h : n.Shaped) {c : PatternCall} :
    record? room names n = some c ↔ IsRecordOf room names n c := by
  by_cases hkind : n.isKind "Call"
  · obtain ⟨f, hf, hfunc⟩ := fieldIs_iff.mp (h.func hkind)
    rw [record?, if_pos hkind]
    constructor
    · intro hrecord
      obtain ⟨_, hargs, hlist⟩ := fieldIs_iff.mp (h.args hkind)
      obtain ⟨args, rfl, hnodes⟩ := isListOf_iff.mp hlist
      obtain ⟨_, hkeywords, hlist⟩ := fieldIs_iff.mp (h.keywords hkind)
      obtain ⟨keywords, rfl, hkeyword⟩ := isListOf_iff.mp hlist
      rw [patternCall?_eq_some hargs, calledFunction?_eq_some hf hfunc] at hrecord
      obtain ⟨⟨owner, hattribute, howner, hfunction⟩, hne, hpattern, htext, hflags⟩ := hrecord
      rw [flagsText?_eq_some hnodes hkeywords hkeyword hfunction] at hflags
      exact ⟨owner, args, keywords, ⟨hkind, ⟨f, hf, hattribute⟩, hargs, hkeywords⟩, hfunction,
        howner, hne, hpattern, htext, hflags⟩
    · rintro ⟨owner, args, keywords, hcall, hfunction, howner, hne, hpattern, htext, hflags⟩
      obtain ⟨f', hf', hattribute⟩ := hcall.func
      obtain rfl : f = f' := by rw [hf] at hf'; exact Option.some.inj hf'
      rw [patternCall?_eq_some hcall.args, calledFunction?_eq_some hf hfunc,
        flagsText?_eq_some (hcall.isNode h) hcall.keywords (hcall.isKeyword h) hfunction]
      exact ⟨⟨owner, hattribute, howner, hfunction⟩, hne, hpattern, htext, hflags⟩
  · rw [record?, if_neg hkind]
    exact ⟨nofun, fun ⟨_, _, _, hcall, _⟩ => absurd hcall.kind hkind⟩

theorem flagsString_ne_flagless {t : Tree} {r : Option (List String)}
    (h : readFlags room names t = .ok r) : flagsString r ≠ PatternCall.flagless := by
  cases r with
  | none => decide
  | some ss =>
    rw [readFlags] at h
    split_ifs at h
    intro (he : Text.join "|" ss = PatternCall.flagless)
    have hmark : 'F' ∉ (Text.join "|" ss).toList :=
      Text.not_mem_join (by decide) (unmarked_flags t ss (Except.ok.inj h))
    rw [he] at hmark
    exact hmark (by decide)

theorem FlagsOf.eq_flagless_iff {s : String} (h : FlagsOf room names function args keywords s) :
    s = PatternCall.flagless ↔ function = "escape" := by
  have hother {i : Nat} (hindex : PatternCall.flagsIndex? function = some i) :
      function ≠ "escape" := by
    rintro rfl
    cases hindex
  cases h with
  | flagless h => simp [h]
  | positional hindex _ hread | keyword hindex _ _ _ hread =>
    simp [hother hindex, flagsString_ne_flagless hread]
  | empty hindex => simp [hother hindex, PatternCall.flagless]

end

/-! ### All records of a tree -/

theorem records_foldl {ps : List (Nat × Tree)} (h : ∀ n ∈ ps.map Prod.snd, n.Shaped)
    {earlier : List Tree} {w : Findings} (hw : w.aliases = earlier.flatMap boundNames) :
    ∃ cs, (ps.foldl visit w).calls = w.calls ++ cs ∧ Records earlier ps cs := by
  induction ps generalizing earlier w with
  | nil => exact ⟨[], by simp, .nil⟩
  | cons p ps ih =>
    obtain ⟨room, n⟩ := p
    rw [map_cons, forall_mem_cons] at h
    have hvisit : (visit w (room, n)).aliases = (earlier ++ [n]).flatMap boundNames := by
      simp [visit, hw]
    obtain ⟨cs, hcs, hrecords⟩ := ih h.2 hvisit
    refine ⟨(record? (room - 2) w.aliases n).toList ++ cs, by rw [foldl_cons, hcs]; simp [visit], ?_⟩
    have hrecord (c : PatternCall) :
        record? (room - 2) w.aliases n = some c ↔ IsRecordOf (room - 2) w.aliases n c :=
      record?_eq_some h.1
    rw [hw] at hrecord ⊢
    cases hr : record? (room - 2) (earlier.flatMap boundNames) n with
    | some c => exact .record ((hrecord c).mp hr) hrecords
    | none => exact .skip (fun c hc => by rw [← hrecord, hr] at hc; cases hc) hrecords

theorem Records.eq_flagless_iff {earlier : List Tree} {ps : List (Nat × Tree)}
    {cs : List PatternCall} (h : Records earlier ps cs) :
    ∀ c ∈ cs, c.flags = PatternCall.flagless ↔ c.function = "escape" := by
  induction h with
  | nil => simp
  | record h _ ih =>
    obtain ⟨_, _, _, _, _, _, _, _, _, hflags⟩ := h
    exact forall_mem_cons.mpr ⟨hflags.eq_flagless_iff, ih⟩
  | skip _ _ ih => exact ih

theorem records_findings {t : Tree} (h : t.IsSyntaxTree) {room : Nat} (hroom : t.walkCalls ≤ room) :
    ∃ w, findings room t = .ok w ∧ Records [] (t.placed room) w.calls := by
  obtain ⟨hnode, hshaped⟩ := h
  obtain ⟨kind, fs, rfl⟩ := isNode_iff.mp hnode
  have hstart : ({} : Findings).aliases = ([] : List Tree).flatMap boundNames := rfl
  have hplaced : ∀ n ∈ ((node kind fs).placed room).map Prod.snd, n.Shaped := by rwa [placed_snd]
  obtain ⟨cs, hcs, hrecords⟩ := records_foldl hplaced hstart
  refine ⟨_, if_neg hroom.not_gt, ?_⟩
  rwa [walk_eq_foldl _ hshaped (.inl rfl), hcs]

def plainName (name : String) : Tree :=
  node "Name" [("id", leaf (.str name)), ("ctx", node "Load" [])]

def attributeOf (owner name : String) : Tree :=
  node "Attribute" [("value", plainName owner), ("attr", leaf (.str name)), ("ctx", node "Load" [])]

def callOn (owner function : String) (args keywords : List Tree) : Tree :=
  node "Call" [
    ("func", attributeOf owner function), ("args", list args), ("keywords", list keywords)]

/-- A program that calls the module before and after it imports it. -/
def program : Tree :=
  let constant := node "Constant" [("value", leaf (.str "a"))]
  let early := callOn "r" "compile" [constant] []
  let imports := node "Import" [("names", list [
    node "alias" [("name", leaf (.str "re")), ("asname", leaf (.str "r"))]])]
  let late := callOn "r" "compile" [callOn "r" "escape" [constant] []]
    [node "keyword" [("arg", leaf (.str "flags")), ("value", attributeOf "r" "I")]]
  node "Module" [("body", list [
    node "Expr" [("value", early)], imports, node "Expr" [("value", late)]])]

/-- A flag joined to itself so many times. -/
def orChain : Nat → Tree
  | 0 => attributeOf "re" "I"
  | k + 1 => node "BinOp" [
      ("left", orChain k), ("op", node "BitOr" []), ("right", attributeOf "re" "I")]

/-- A program that compiles a pattern with these flags. -/
def chainProgram (k : Nat) : Tree :=
  let imports := node "Import" [("names", list [
    node "alias" [("name", leaf (.str "re")), ("asname", leaf .null)]])]
  let compile := callOn "re" "compile" [node "Constant" [("value", leaf (.str "a"))], orChain k] []
  node "Module" [("body", list [imports, node "Expr" [("value", compile)]])]

end RegexCorpus.Tree
