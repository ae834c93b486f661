import RegexCorpus.SyntaxTree.Tree

/-!
# Nodes of a syntax tree

* `Tree.nodes` — the nodes of a tree in pre-order, wherever they are nested;
* `Tree.Shaped` — what the grammar says about a node, as far as calls and imports are concerned;
* `Tree.IsSyntaxTree` — a node all of whose nodes are shaped in this way.
-/

namespace RegexCorpus.Tree

theorem parts_induction {P : Tree → Prop}
    (hnode : ∀ kind (fs : Fields), (∀ f ∈ fs, P f.2) → P (.node kind fs))
    (hlist : ∀ ts, (∀ t ∈ ts, P t) → P (.list ts)) (hleaf : ∀ v, P (.leaf v)) : ∀ t, P t
  | .node kind fs => hnode kind fs fun f _ => parts_induction hnode hlist hleaf f.2
  | .list ts => hlist ts fun t _ => parts_induction hnode hlist hleaf t
  | .leaf v => hleaf v
decreasing_by
  · have := List.sizeOf_lt_of_mem ‹f ∈ fs›
    obtain ⟨name, t⟩ := f
    simp only [Tree.node.sizeOf_spec, Prod.mk.sizeOf_spec] at this ⊢
    omega
  · have := List.sizeOf_lt_of_mem ‹t ∈ ts›
    simp only [Tree.list.sizeOf_spec]
    omega

/-! ### Pre-order -/

mutual

def nodes : Tree → List Tree
  | node kind fs => node kind fs :: fieldNodes fs
  | list ts => itemNodes ts
  | leaf _ => []

def fieldNodes : List (String × Tree) → List Tree
  | [] => []
  | (_, t) :: fs => nodes t ++ fieldNodes fs

def itemNodes : List Tree → List Tree
  | [] => []
  | t :: ts => nodes t ++ itemNodes ts

end

theorem mem_fieldNodes {n : Tree} {fs : Fields} :
    n ∈ fieldNodes fs ↔ ∃ f ∈ fs, n ∈ f.2.nodes := by
  induction fs with
  | nil => simp [fieldNodes]
  | cons f fs ih => simp [fieldNodes, ih]

theorem mem_itemNodes {n : Tree} {ts : List Tree} : n ∈ itemNodes ts ↔ ∃ t ∈ ts, n ∈ t.nodes := by
  induction ts with
  | nil => simp [itemNodes]
  | cons t ts ih => simp [itemNodes, ih]

/-! ### Shapes -/

def fields : Tree → List (String × Tree)
  | node _ fs => fs
  | _ => []

def isNode : Tree → Bool
  | node _ _ => true
  | _ => false

def isKind (kind : String) : Tree → Bool
  | node k _ => k == kind
  | _ => false

def isText (t : Tree) : Bool := t.text?.isSome

def isSingle : Tree → Bool
  | list _ => false
  | _ => true

def isListOf (p : Tree → Bool) : Tree → Bool
  | list ts => ts.all p
  | _ => false

def fieldIs (t : Tree) (name : String) (p : Tree → Bool) : Bool := (t.field? name).any p

/-- Only an attribute has the name of an attribute, and only a name has an identifier. -/
def isExpression (t : Tree) : Bool :=
  (t.isKind "Attribute" || !t.fieldIs "attr" isText) && (t.isKind "Name" || !t.fieldIs "id" isText)

def isKeyword (t : Tree) : Bool := t.isNode && t.fieldIs "value" isNode

/-- A module under another name, or under its own when the other one is missing or null. -/
def isAlias (t : Tree) : Bool :=
  t.fieldIs "name" isText &&
    match t.field? "asname" with
    | none => true
    | some (leaf .null) => true
    | some other => other.isText

section
variable {t : Tree} {name : String} {p : Tree → Bool}

theorem isNode_iff : t.isNode = true ↔ ∃ kind fs, t = node kind fs := by
  cases t <;> simp [isNode]

theorem isText_iff : t.isText = true ↔ ∃ s, t = leaf (.str s) := by
  rw [isText, Option.isSome_iff_exists]
  refine exists_congr fun s => ⟨fun h => ?_, fun h => h ▸ rfl⟩
  unfold text? at h
  split at h <;> cases h
  rfl

theorem isListOf_iff : t.isListOf p = true ↔ ∃ ts, t = list ts ∧ ∀ u ∈ ts, p u = true := by
  cases t <;> simp [isListOf]

theorem fieldIs_iff : t.fieldIs name p = true ↔ ∃ u, t.field? name = some u ∧ p u = true := by
  cases h : t.field? name <;> simp [fieldIs, h]

theorem fieldIs_isText_iff : t.fieldIs name isText = true ↔ ∃ s, t.textField? name = some s := by
  cases h : t.field? name <;> simp [fieldIs, textField?, isText, h, Option.isSome_iff_exists]

theorem isKind_attribute (h : t.isExpression = true) {s : String}
    (hs : t.textField? "attr" = some s) : t.isKind "Attribute" = true := by
  have hattr := fieldIs_isText_iff.mpr ⟨s, hs⟩
  simp only [isExpression, hattr, Bool.not_true, Bool.or_false, Bool.and_eq_true] at h
  exact h.1

theorem isKind_name (h : t.isExpression = true) {s : String} (hs : t.textField? "id" = some s) :
    t.isKind "Name" = true := by
  have hid := fieldIs_isText_iff.mpr ⟨s, hs⟩
  simp only [isExpression, hid, Bool.not_true, Bool.or_false, Bool.and_eq_true] at h
  exact h.2

end

/-- The shape that the grammar gives to calls and imports. -/
structure Shaped (n : Tree) : Prop where
  func : n.isKind "Call" →
    n.fieldIs "func" fun f => f.isExpression && (f.field? "value").all isExpression
  args : n.isKind "Call" → n.fieldIs "args" (isListOf isNode)
  keywords : n.isKind "Call" → n.fieldIs "keywords" (isListOf isKeyword)
  names : n.isKind "Import" → n.fieldIs "names" (isListOf isAlias)
  imports : n.isKind "Import" ∨ n.isKind "ImportFrom" → ∀ m ∈ n.nodes.tail, m.isKind "alias"
  fields : ∀ f ∈ n.fields, f.2.isSingle ∨ f.2.isListOf isSingle

instance : DecidablePred Shaped := fun n =>
  decidable_of_iff
    ((n.isKind "Call" → n.fieldIs "func" fun f =>
        f.isExpression && (f.field? "value").all isExpression) ∧
      (n.isKind "Call" → n.fieldIs "args" (isListOf isNode)) ∧
      (n.isKind "Call" → n.fieldIs "keywords" (isListOf isKeyword)) ∧
      (n.isKind "Import" → n.fieldIs "names" (isListOf isAlias)) ∧
      (n.isKind "Import" ∨ n.isKind "ImportFrom" → ∀ m ∈ n.nodes.tail, m.isKind "alias") ∧
      ∀ f ∈ n.fields, f.2.isSingle ∨ f.2.isListOf isSingle)
    ⟨fun ⟨h₁, h₂, h₃, h₄, h₅, h₆⟩ => ⟨h₁, h₂, h₃, h₄, h₅, h₆⟩,
      fun ⟨h₁, h₂, h₃, h₄, h₅, h₆⟩ => ⟨h₁, h₂, h₃, h₄, h₅, h₆⟩⟩

def IsSyntaxTree (t : Tree) : Prop := t.isNode ∧ ∀ n ∈ t.nodes, n.Shaped

instance : DecidablePred IsSyntaxTree := fun t =>
  inferInstanceAs (Decidable (t.isNode ∧ ∀ n ∈ t.nodes, n.Shaped))

end RegexCorpus.Tree
