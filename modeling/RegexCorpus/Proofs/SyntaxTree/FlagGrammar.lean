import RegexCorpus.Proofs.SyntaxTree.Calls

/-!
# The grammar of static flags

An expression gives static flags when it is a flag of the module of patterns, a number, the module
itself, or two such expressions with the operator `|` between them. The walk over the flags of a
call accepts exactly these expressions, and finds the names and numbers in them from left to right.
-/

namespace RegexCorpus.Tree
open List

/-! ### Expressions -/

/-- Whether an expression is read, bound or deleted. -/
def contexts : List String := ["Load", "Store", "Del"]

def binaryOperators : List String :=
  ["Add", "Sub", "Mult", "MatMult", "Div", "Mod", "Pow", "LShift", "RShift", "BitOr", "BitXor",
   "BitAnd", "FloorDiv"]

/-- The kinds of expression other than names, attributes, constants and binary operations. -/
def otherExpressions : List String :=
  ["BoolOp", "NamedExpr", "UnaryOp", "Lambda", "IfExp", "Dict", "Set", "ListComp", "SetComp",
   "DictComp", "GeneratorExp", "Await", "Yield", "YieldFrom", "Compare", "Call", "FormattedValue",
   "JoinedStr", "Subscript", "Starred", "List", "Tuple", "Slice"]

def nameNode (id context : String) : Tree :=
  node "Name" [("id", leaf (.str id)), ("ctx", node context [])]

def attributeNode (value : Tree) (attr context : String) : Tree :=
  node "Attribute" [("value", value), ("attr", leaf (.str attr)), ("ctx", node context [])]

/-- A constant. Some texts come with the letter that stands before them. -/
def constantNode (v : Value) (letter : Option String) : Tree :=
  node "Constant" (("value", leaf v) :: (letter.map fun s => ("kind", leaf (.str s))).toList)

def binaryNode (left : Tree) (operator : String) (right : Tree) : Tree :=
  node "BinOp" [("left", left), ("op", node operator []), ("right", right)]

/-- An expression. Of the kinds that say nothing about flags it is only asked that they have no
identifier, which is for names alone. -/
inductive IsExpr : Tree → Prop
  | name (id : String) {context : String} (hcontext : context ∈ contexts) :
      IsExpr (nameNode id context)
  | access {value : Tree} (hvalue : IsExpr value) (attr : String) {context : String}
      (hcontext : context ∈ contexts) : IsExpr (attributeNode value attr context)
  | constant (v : Value) (letter : Option String) : IsExpr (constantNode v letter)
  | binary {left right : Tree} (hleft : IsExpr left) {operator : String}
      (hoperator : operator ∈ binaryOperators) (hright : IsExpr right) :
      IsExpr (binaryNode left operator right)
  | other {kind : String} (hkind : kind ∈ otherExpressions) {fs : Fields}
      (hfs : ∀ f ∈ fs, f.1 ≠ "id") : IsExpr (node kind fs)

/-! ### Static flags -/

/-- An expression gives static flags; `aliases` are the names of the module of patterns. -/
inductive IsFlags (aliases : List String) : Tree → Prop
  | flag {owner name : String} (howner : owner ∈ aliases) (hname : name ∈ flagNames)
      {inner outer : String} (hinner : inner ∈ contexts) (houter : outer ∈ contexts) :
      IsFlags aliases (attributeNode (nameNode owner inner) name outer)
  | whole (n : Int) (letter : Option String) : IsFlags aliases (constantNode (.int n) letter)
  | fraction (x : Double) (letter : Option String) :
      IsFlags aliases (constantNode (.double x) letter)
  | complex (x : Double) (letter : Option String) :
      IsFlags aliases (constantNode (imaginary x) letter)
  | bare {owner : String} (howner : owner ∈ aliases) : IsFlags aliases (nameNode owner "Load")
  | either {left right : Tree} (hleft : IsFlags aliases left) (hright : IsFlags aliases right) :
      IsFlags aliases (binaryNode left "BitOr" right)

/-- What a node adds to the flags: an attribute its name, and a number its digits. -/
def flagText? (n : Tree) : Option String :=
  if n.isKind "Attribute" then n.textField? "attr"
  else if n.isKind "Constant" then numberText? (n.field? "value")
  else none

def flagTexts (t : Tree) : List String := t.nodes.filterMap flagText?

def otherOperators : List String :=
  binaryOperators.erase "BitOr" ++
    ["And", "Or", "Invert", "Not", "UAdd", "USub", "Eq", "NotEq", "Lt", "LtE", "Gt", "GtE", "Is",
     "IsNot", "In", "NotIn"]

/-- A node that makes flags dynamic: a call, a conditional, an operator other than `|`, a name that
is not one of the module's, or an attribute that is not one of its flags. -/
inductive IsForeign (aliases : List String) (n : Tree) : Prop
  | call (h : n.isKind "Call")
  | conditional (h : n.isKind "IfExp")
  | operator {kind : String} (hkind : kind ∈ otherOperators) (h : n.isKind kind)
  | name (h : n.isKind "Name") (hid : ∀ owner ∈ aliases, n.textField? "id" ≠ some owner)
  | access (h : n.isKind "Attribute")
      (hflag : ∀ owner ∈ aliases, ∀ name ∈ flagNames, ¬n.IsAttributeOf owner name)

section

variable {aliases : List String} {t : Tree} {ss : List String}
variable {kind : String}

/-! ### Flags in a tree -/

theorem nodes_nameNode (id context : String) :
    (nameNode id context).nodes = [nameNode id context, node context []] := by
  simp [nameNode, nodes, fieldNodes]

theorem nodes_attributeNode (value : Tree) (attr context : String) :
    (attributeNode value attr context).nodes =
      attributeNode value attr context :: (value.nodes ++ [node context []]) := by
  simp [attributeNode, nodes, fieldNodes]

theorem nodes_constantNode (v : Value) (letter : Option String) :
    (constantNode v letter).nodes = [constantNode v letter] := by
  cases letter <;> simp [constantNode, nodes, fieldNodes]

theorem nodes_binaryNode (left : Tree) (operator : String) (right : Tree) :
    (binaryNode left operator right).nodes =
      binaryNode left operator right :: (left.nodes ++ node operator [] :: right.nodes) := by
  simp [binaryNode, nodes, fieldNodes]

theorem flagText?_of_not_kind (hattribute : kind ≠ "Attribute") (hconstant : kind ≠ "Constant")
    (fs : Fields) : flagText? (node kind fs) = none := by
  simp [flagText?, isKind, hattribute, hconstant]

theorem flagText?_empty (kind : String) : flagText? (node kind []) = none := by
  simp [flagText?, textField?, field?, numberText?]

theorem flagTexts_nameNode (id context : String) : (nameNode id context).flagTexts = [] := by
  have hname : flagText? (nameNode id context) = none :=
    flagText?_of_not_kind (by decide) (by decide) _
  simp [flagTexts, nodes_nameNode, hname, flagText?_empty]

theorem flagTexts_attributeNode (value : Tree) (attr context : String) :
    (attributeNode value attr context).flagTexts = attr :: value.flagTexts := by
  have hattr : flagText? (attributeNode value attr context) = some attr := by
    simp [flagText?, attributeNode, isKind, textField?, field?, text?]
  simp [flagTexts, nodes_attributeNode, hattr, flagText?_empty]

theorem flagTexts_binaryNode (left : Tree) (operator : String) (right : Tree) :
    (binaryNode left operator right).flagTexts = left.flagTexts ++ right.flagTexts := by
  have hbinary : flagText? (binaryNode left operator right) = none :=
    flagText?_of_not_kind (by decide) (by decide) _
  simp [flagTexts, nodes_binaryNode, hbinary, flagText?_empty]

theorem flagTexts_constantNode (v : Value) (letter : Option String) :
    (constantNode v letter).flagTexts = (numberText? (some (leaf v))).toList := by
  have hconstant : flagText? (constantNode v letter) = numberText? (some (leaf v)) := by
    simp [flagText?, constantNode, isKind, field?]
  rw [flagTexts, nodes_constantNode]
  cases h : numberText? (some (leaf v)) <;> simp [hconstant, h]

/-! ### The walk over an expression -/

/-- The kinds of node that may stand in static flags. -/
def staticKinds : List String := ["Attribute", "Constant", "Name", "BinOp", "BitOr", "Load"]

theorem flags?_eq_none (hkind : kind ∉ staticKinds) (fs : Fields) :
    flags? aliases (node kind fs) = none := by
  simp only [staticKinds, mem_cons, not_mem_nil, or_false, not_or] at hkind
  rw [flags?] <;> simp [hkind]

@[simp] theorem flags?_leaf (v : Value) : flags? aliases (leaf v) = some [] := by rw [flags?]

@[simp] theorem fieldFlags?_nil : fieldFlags? aliases [] = some [] := by rw [fieldFlags?]

@[simp] theorem fieldFlags?_cons (name : String) (t : Tree) (fs : Fields) :
    fieldFlags? aliases ((name, t) :: fs) =
      (flags? aliases t).bind fun ss => (fieldFlags? aliases fs).map (ss ++ ·) := by
  rw [fieldFlags?]
  cases flags? aliases t with
  | none => rfl
  | some ss => cases fieldFlags? aliases fs <;> rfl

theorem flags?_nameNode (id context : String) :
    flags? aliases (nameNode id context) =
      if id ∈ aliases then flags? aliases (node context []) else none := by
  rw [nameNode, flags?]
  simp [namesModule, textField?, field?, text?]

theorem flags?_attributeNode (value : Tree) (attr context : String) :
    flags? aliases (attributeNode value attr context) =
      (value.textField? "id").bind fun owner =>
        if owner ∈ aliases ∧ attr ∈ flagNames then some [attr] else none := by
  rw [attributeNode, flags?]
  simp [flagName?, field?, textField?, text?]

theorem flags?_constantNode (v : Value) (letter : Option String) :
    flags? aliases (constantNode v letter) = (numberText? (some (leaf v))).map fun s => [s] := by
  rw [constantNode, flags?]
  simp [field?]

theorem flags?_binaryNode (left : Tree) (operator : String) (right : Tree) :
    flags? aliases (binaryNode left operator right) =
      (flags? aliases left).bind fun ls => (flags? aliases (node operator [])).bind fun ms =>
        (flags? aliases right).map fun rs => ls ++ (ms ++ rs) := by
  rw [binaryNode, flags?]
  simp [Function.comp_def]

/-- A node without fields adds nothing to the flags, or makes them dynamic. -/
theorem flags?_empty {static : String} (hstatic : static = "Load" ∨ static = "BitOr")
    (hother : kind ≠ static → kind ∉ staticKinds) :
    flags? aliases (node kind []) = some ss ↔ kind = static ∧ ss = [] := by
  by_cases hkind : kind = static
  · subst hkind
    rcases hstatic with rfl | rfl <;> rw [flags?] <;> simp [eq_comm]
  · simp [flags?_eq_none (hother hkind), hkind]

theorem flags?_context {context : String} (hcontext : context ∈ contexts) :
    flags? aliases (node context []) = some ss ↔ context = "Load" ∧ ss = [] := by
  have hother : ∀ context ∈ contexts, context ≠ "Load" → context ∉ staticKinds := by decide
  exact flags?_empty (.inl rfl) (hother context hcontext)

theorem flags?_operator {operator : String} (hoperator : operator ∈ binaryOperators) :
    flags? aliases (node operator []) = some ss ↔ operator = "BitOr" ∧ ss = [] := by
  have hother : ∀ operator ∈ binaryOperators, operator ≠ "BitOr" → operator ∉ staticKinds := by
    decide
  exact flags?_empty (.inr rfl) (hother operator hoperator)

/-! ### What is accepted -/

theorem IsFlags.flags?_eq (h : IsFlags aliases t) : flags? aliases t = some t.flagTexts := by
  induction h with
  | @flag owner name howner hname inner outer hinner houter =>
    have hid : (nameNode owner inner).textField? "id" = some owner := rfl
    rw [flags?_attributeNode, hid, Option.bind_some, if_pos ⟨howner, hname⟩,
      flagTexts_attributeNode, flagTexts_nameNode]
  | whole _ letter | fraction _ letter | complex _ letter =>
    rw [flags?_constantNode, flagTexts_constantNode]
    rfl
  | bare howner =>
    rw [flags?_nameNode, if_pos howner, flagTexts_nameNode]
    exact (flags?_context (by decide)).mpr ⟨rfl, rfl⟩
  | either _ _ ihleft ihright =>
    have hor : flags? aliases (node "BitOr" []) = some [] :=
      (flags?_operator (by decide)).mpr ⟨rfl, rfl⟩
    rw [flags?_binaryNode, ihleft, ihright, hor, flagTexts_binaryNode]
    rfl

theorem IsExpr.exists_nameNode (h : IsExpr t) {id : String} (hid : t.textField? "id" = some id) :
    ∃ context ∈ contexts, t = nameNode id context := by
  cases h with
  | @name id' context hcontext =>
    obtain rfl : id' = id := Option.some.inj hid
    exact ⟨context, hcontext, rfl⟩
  | access | binary => cases hid
  | constant v letter => cases letter <;> cases hid
  | @other kind _ fs hfs =>
    have hnone : fs.find? (·.1 == "id") = none := by simpa using hfs
    simp [textField?, field?, hnone] at hid

theorem IsExpr.isFlags (h : IsExpr t) (hss : flags? aliases t = some ss) : IsFlags aliases t := by
  induction h generalizing ss with
  | @name id context hcontext =>
    rw [flags?_nameNode] at hss
    split_ifs at hss with howner
    obtain ⟨rfl, -⟩ := (flags?_context hcontext).mp hss
    exact .bare howner
  | @access value hvalue attr context hcontext _ =>
    rw [flags?_attributeNode, Option.bind_eq_some_iff] at hss
    obtain ⟨owner, hid, hflag⟩ := hss
    split_ifs at hflag with hnames
    obtain ⟨inner, hinner, rfl⟩ := hvalue.exists_nameNode hid
    exact .flag hnames.1 hnames.2 hinner hcontext
  | constant v letter =>
    rw [flags?_constantNode, Option.map_eq_some_iff] at hss
    obtain ⟨s, hs, -⟩ := hss
    unfold numberText? at hs
    split at hs
    · cases ‹some (leaf v) = _›
      exact .whole _ letter
    · cases ‹some (leaf v) = _›
      exact .fraction _ letter
    · cases ‹some (leaf v) = _›
      exact .complex _ letter
    · cases hs
  | @binary left right _ operator hoperator _ ihleft ihright =>
    rw [flags?_binaryNode, Option.bind_eq_some_iff] at hss
    obtain ⟨ls, hls, hss⟩ := hss
    obtain ⟨ms, hms, hss⟩ := Option.bind_eq_some_iff.mp hss
    obtain ⟨rs, hrs, -⟩ := Option.map_eq_some_iff.mp hss
    obtain ⟨rfl, -⟩ := (flags?_operator hoperator).mp hms
    exact .either (ihleft hls) (ihright hrs)
  | @other kind hkind fs _ =>
    have hother : ∀ kind ∈ otherExpressions, kind ∉ staticKinds := by decide
    rw [flags?_eq_none (hother kind hkind)] at hss
    cases hss

theorem IsExpr.flags?_eq_some (h : IsExpr t) :
    flags? aliases t = some ss ↔ IsFlags aliases t ∧ ss = t.flagTexts := by
  constructor
  · intro hss
    have hflags := h.isFlags hss
    rw [hflags.flags?_eq, Option.some.injEq] at hss
    exact ⟨hflags, hss.symm⟩
  · rintro ⟨hflags, rfl⟩
    exact hflags.flags?_eq

/-! ### What is not accepted -/

theorem not_isForeign_of_kind (fs : Fields)
    (hkind : kind ∈ ["Constant", "BinOp", "BitOr"] ++ contexts) :
    ¬IsForeign aliases (node kind fs) := by
  have hkinds : ∀ kind ∈ ["Constant", "BinOp", "BitOr"] ++ contexts,
      kind ∉ ["Call", "IfExp", "Name", "Attribute"] ++ otherOperators := by decide
  have hother := hkinds kind hkind
  simp only [mem_append, mem_cons, not_mem_nil, or_false, not_or] at hother
  rintro (h | h | ⟨hoperator, h⟩ | ⟨h, -⟩ | ⟨h, -⟩) <;> simp_all [isKind]

theorem not_isForeign_nameNode {owner : String} (howner : owner ∈ aliases) (context : String) :
    ¬IsForeign aliases (nameNode owner context) := by
  have hname : "Name" ∉ otherOperators := by decide
  rintro (h | h | ⟨hoperator, h⟩ | ⟨-, hid⟩ | ⟨h, -⟩)
  · cases h
  · cases h
  · obtain rfl : "Name" = _ := by simpa [isKind, nameNode] using h
    exact hname hoperator
  · exact hid owner howner rfl
  · cases h

theorem not_isForeign_attributeNode {owner name : String} (howner : owner ∈ aliases)
    (hname : name ∈ flagNames) (inner outer : String) :
    ¬IsForeign aliases (attributeNode (nameNode owner inner) name outer) := by
  have hattribute : "Attribute" ∉ otherOperators := by decide
  rintro (h | h | ⟨hoperator, h⟩ | ⟨h, -⟩ | ⟨-, hflag⟩)
  · cases h
  · cases h
  · obtain rfl : "Attribute" = _ := by simpa [isKind, attributeNode] using h
    exact hattribute hoperator
  · cases h
  · exact hflag owner howner name hname ⟨rfl, rfl, nameNode owner inner, rfl, rfl, rfl⟩

theorem IsFlags.not_isForeign (h : IsFlags aliases t) : ∀ n ∈ t.nodes, ¬IsForeign aliases n := by
  induction h with
  | @flag owner name howner hname inner outer hinner houter =>
    simp only [nodes_attributeNode, nodes_nameNode, forall_mem_cons, forall_mem_append,
      not_mem_nil, false_imp_iff, implies_true, and_true]
    exact ⟨not_isForeign_attributeNode howner hname inner outer,
      ⟨not_isForeign_nameNode howner inner, not_isForeign_of_kind [] (by simp [hinner])⟩,
      not_isForeign_of_kind [] (by simp [houter])⟩
  | whole _ letter | fraction _ letter | complex _ letter =>
    simp only [nodes_constantNode, forall_mem_singleton]
    exact not_isForeign_of_kind _ (by decide)
  | @bare owner howner =>
    simp only [nodes_nameNode, forall_mem_cons, not_mem_nil, false_imp_iff, implies_true, and_true]
    exact ⟨not_isForeign_nameNode howner "Load", not_isForeign_of_kind [] (by decide)⟩
  | either _ _ ihleft ihright =>
    simp only [nodes_binaryNode, forall_mem_cons, forall_mem_append]
    exact ⟨not_isForeign_of_kind _ (by decide), ihleft, not_isForeign_of_kind [] (by decide),
      ihright⟩

/-! ### Calls -/

/-- The walk over the flags comes to its end. -/
def flagsFit (room : Nat) (t : Tree) : Bool :=
  decide (t.flagCalls ≤ room) && decide (t.flagDigits ≤ Json.digitLimit)

theorem readFlags_eq_ok {room : Nat} {r : Option (List String)} :
    readFlags room aliases t = .ok r ↔ t.flagsFit room ∧ flags? aliases t = r := by
  simp only [readFlags, flagsFit, Bool.and_eq_true, decide_eq_true_iff]
  split_ifs with hdeep hlong
  · simp [hdeep.not_ge]
  · simp [hlong.not_ge]
  · simp [not_lt.mp hdeep, not_lt.mp hlong]

theorem TakesFlags.patternCall?_eq_some {room : Nat} {n : Tree} {function : String}
    (h : TakesFlags aliases n function t) {c : PatternCall} :
    patternCall? room aliases n = some c ↔ (n.hasText room ∧ t.flagsFit room) ∧
      c = ⟨function, PatternCall.dynamicPattern, flagsString (flags? aliases t)⟩ := by
  obtain ⟨owner, howner, args, keywords, i, hcall, hne, hindex, hsource⟩ := h.call
  obtain ⟨f, hf, hfunc⟩ := fieldIs_iff.mp (h.shaped.func hcall.kind)
  obtain ⟨f', hf', hattribute⟩ := hcall.func
  obtain rfl : f = f' := Option.some.inj (hf.symm.trans hf')
  have hcalled : calledFunction? aliases n = some function :=
    (calledFunction?_eq_some hf hfunc).mpr ⟨owner, hattribute, howner, h.known⟩
  rw [Tree.patternCall?_eq_some hcall.args, hcalled, Option.some.injEq]
  have hflags {s : String} : flagsText? room aliases n args function = some s ↔
      t.flagsFit room ∧ flagsString (flags? aliases t) = s := by
    rw [flagsText?_eq (hcall.isNode h.shaped) hcall.keywords (hcall.isKeyword h.shaped) hindex,
      hsource, sourceText?]
    cases hread : readFlags room aliases t with
    | ok r =>
      obtain ⟨hfit, rfl⟩ := readFlags_eq_ok.mp hread
      simp [hfit]
    | error e =>
      have hfit : ¬t.flagsFit room := fun hfit => by
        rw [readFlags_eq_ok.mpr ⟨hfit, rfl⟩] at hread
        cases hread
      simp [hfit]
  obtain ⟨_, _, _⟩ := c
  rw [PatternCall.mk.injEq]
  constructor
  · rintro ⟨rfl, -, rfl, htext, htexts⟩
    obtain ⟨hfit, rfl⟩ := hflags.mp htexts
    exact ⟨⟨htext, hfit⟩, rfl, rfl, rfl⟩
  · rintro ⟨⟨htext, hfit⟩, rfl, rfl, rfl⟩
    exact ⟨rfl, hne, rfl, htext, hflags.mpr ⟨hfit, rfl⟩⟩

end

def flagsWith (name : String) : Tree :=
  binaryNode (attributeNode (nameNode "re" "Load") "I" "Load") "BitOr"
    (binaryNode (constantNode (.int 8) none) "BitOr" (nameNode name "Load"))

theorem isExpr_flagsWith (name : String) : IsExpr (flagsWith name) := by
  have hload : "Load" ∈ contexts := by decide
  have hor : "BitOr" ∈ binaryOperators := by decide
  exact .binary (.access (.name "re" hload) "I" hload) hor
    (.binary (.constant _ _) hor (.name name hload))

def compileWith (name : String) : Tree :=
  callOn "re" "compile" [constantNode (.str "a") none, flagsWith name] []

theorem isFlags_orChain (k : Nat) : IsFlags ["re"] (orChain k) := by
  have hflag : IsFlags ["re"] (orChain 0) :=
    .flag (by decide) (by decide) (by decide : "Load" ∈ contexts) (by decide : "Load" ∈ contexts)
  induction k with
  | zero => exact hflag
  | succ k ih => exact .either ih hflag

end RegexCorpus.Tree
