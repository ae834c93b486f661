import RegexCorpus.Value.Basic

/-!
# Syntax trees

A tree is a node with named fields, a list, or a leaf. Nodes are visited field by field, in the order
that the grammar of the language gives to the fields of their kind.
-/

namespace RegexCorpus

/-- A node with its fields by name, a list in a field, or data. -/
inductive Tree where
  | node (kind : String) (fields : List (String × Tree))
  | list (items : List Tree)
  | leaf (v : Value)
  deriving Repr, Inhabited

namespace Tree

abbrev Fields := List (String × Tree)

/-- The fields of the kinds of node that have several, in the order of the grammar. -/
def grammar : List (String × List String) := [
  ("AnnAssign", ["target", "annotation", "value", "simple"]),
  ("Assert", ["test", "msg"]),
  ("Assign", ["targets", "value", "type_comment"]),
  ("AsyncFor", ["target", "iter", "body", "orelse", "type_comment"]),
  ("AsyncFunctionDef", ["name", "args", "body", "decorator_list", "returns", "type_comment"]),
  ("AsyncWith", ["items", "body", "type_comment"]),
  ("Attribute", ["value", "attr", "ctx"]),
  ("AugAssign", ["target", "op", "value"]),
  ("BinOp", ["left", "op", "right"]),
  ("BoolOp", ["op", "values"]),
  ("Call", ["func", "args", "keywords"]),
  ("ClassDef", ["name", "bases", "keywords", "body", "decorator_list"]),
  ("Compare", ["left", "ops", "comparators"]),
  ("Constant", ["value", "kind"]),
  ("Dict", ["keys", "values"]),
  ("DictComp", ["key", "value", "generators"]),
  ("ExceptHandler", ["type", "name", "body"]),
  ("For", ["target", "iter", "body", "orelse", "type_comment"]),
  ("FormattedValue", ["value", "conversion", "format_spec"]),
  ("FunctionDef", ["name", "args", "body", "decorator_list", "returns", "type_comment"]),
  ("FunctionType", ["argtypes", "returns"]),
  ("GeneratorExp", ["elt", "generators"]),
  ("If", ["test", "body", "orelse"]),
  ("IfExp", ["test", "body", "orelse"]),
  ("ImportFrom", ["module", "names", "level"]),
  ("Lambda", ["args", "body"]),
  ("List", ["elts", "ctx"]),
  ("ListComp", ["elt", "generators"]),
  ("Match", ["subject", "cases"]),
  ("MatchAs", ["pattern", "name"]),
  ("MatchClass", ["cls", "patterns", "kwd_attrs", "kwd_patterns"]),
  ("MatchMapping", ["keys", "patterns", "rest"]),
  ("Module", ["body", "type_ignores"]),
  ("Name", ["id", "ctx"]),
  ("NamedExpr", ["target", "value"]),
  ("Raise", ["exc", "cause"]),
  ("SetComp", ["elt", "generators"]),
  ("Slice", ["lower", "upper", "step"]),
  ("Starred", ["value", "ctx"]),
  ("Subscript", ["value", "slice", "ctx"]),
  ("Try", ["body", "handlers", "orelse", "finalbody"]),
  ("TryStar", ["body", "handlers", "orelse", "finalbody"]),
  ("Tuple", ["elts", "ctx"]),
  ("TypeIgnore", ["lineno", "tag"]),
  ("UnaryOp", ["op", "operand"]),
  ("While", ["test", "body", "orelse"]),
  ("With", ["items", "body", "type_comment"]),
  ("alias", ["name", "asname"]),
  ("arg", ["arg", "annotation", "type_comment"]),
  ("arguments", ["posonlyargs", "args", "vararg", "kwonlyargs", "kw_defaults", "kwarg", "defaults"]),
  ("comprehension", ["target", "iter", "ifs", "is_async"]),
  ("keyword", ["arg", "value"]),
  ("match_case", ["pattern", "guard", "body"]),
  ("withitem", ["context_expr", "optional_vars"])]

/-- The fields of a node in the order of the grammar; other fields come after them. -/
def arrange (kind : String) (fields : Fields) : Fields :=
  let order := ((grammar.find? (·.1 == kind)).map (·.2)).getD []
  order.filterMap (fun name => fields.find? (·.1 == name)) ++
    fields.filter fun f => !order.contains f.1

def field? : Tree → String → Option Tree
  | node _ fields, name => (fields.find? (·.1 == name)).map (·.2)
  | _, _ => none

def text? : Tree → Option String
  | leaf (.str s) => some s
  | _ => none

def textField? (t : Tree) (name : String) : Option String := (t.field? name).bind text?

def items? : Tree → Option (List Tree)
  | list ts => some ts
  | _ => none

/-- A node, a list with items in it, or a leaf with something in it. -/
def holds : Tree → Bool
  | node _ _ => true
  | list ts => !ts.isEmpty
  | leaf v => v.holds

/-! ### Trees as data -/

mutual

def ofValue : Value → Tree
  | .list vs => list (ofItems vs)
  | .dict es =>
    match Entries.find? es (.str "_") with
    | some (.str kind) => node kind (arrange kind (ofEntries es))
    | _ => leaf (.dict es)
  | .atom a => leaf (.atom a)

def ofItems : List Value → List Tree
  | [] => []
  | v :: vs => ofValue v :: ofItems vs

def ofEntries : List (Atom × Value) → List (String × Tree)
  | [] => []
  | (.str "_", _) :: es => ofEntries es
  | (.str name, v) :: es => (name, ofValue v) :: ofEntries es
  | _ :: es => ofEntries es

end

mutual

def toValue : Tree → Value
  | node kind fields => .dict ((.str "_", .str kind) :: toEntries fields)
  | list ts => .list (toItems ts)
  | leaf v => v

def toItems : List Tree → List Value
  | [] => []
  | t :: ts => toValue t :: toItems ts

def toEntries : List (String × Tree) → List (Atom × Value)
  | [] => []
  | (name, t) :: fs => (.str name, toValue t) :: toEntries fs

end

end Tree
end RegexCorpus
