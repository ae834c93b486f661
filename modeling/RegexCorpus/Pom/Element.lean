import RegexCorpus.Text.Search

/-!
# Elements of a build description

A build description is a tree of elements. A tag may be qualified: a namespace in braces, then the
local name. Elements are found by the way of names that leads down to them, and are named by their
*place*, the list of child positions from the root, so that a change at a place can be stated.

A description is written piece by piece, and each piece takes so many calls inside one another. The
writing breaks off at the first piece for which there is no room (`Element.written`).
-/

namespace RegexCorpus.Pom

/-- An element: its tag, the text before its first child, the text after it, its attributes and its
children. -/
inductive Element where
  | mk (tag : String) (text tail : Option String) (attributes : List (String × String))
    (children : List Element)
  deriving Repr, Inhabited

namespace Element

def tag : Element → String
  | mk tag _ _ _ _ => tag

def text : Element → Option String
  | mk _ text _ _ _ => text

def tail : Element → Option String
  | mk _ _ tail _ _ => tail

def attributes : Element → List (String × String)
  | mk _ _ _ attributes _ => attributes

def children : Element → List Element
  | mk _ _ _ _ children => children

def withText (t : String) : Element → Element
  | mk tag _ tail attributes children => mk tag (some t) tail attributes children

/-! ### Namespaces -/

/-- The part of a line up to its last closing brace, if there is one. -/
def throughLastBrace : List Char → Option (List Char)
  | [] => none
  | c :: cs =>
    if c == '\n' then none
    else match throughLastBrace cs with
      | some r => some (c :: r)
      | none => if c == '\x7d' then some [c] else none

/-- The namespace that a tag starts with, braces included; empty when there is none. -/
def namespaceOf (tag : String) : String :=
  match tag.toList with
  | '\x7b' :: cs =>
    match throughLastBrace cs with
    | some r => String.ofList ('\x7b' :: r)
    | none => ""
  | _ => ""

/-- The part after the first closing brace. -/
def afterBrace? : List Char → Option (List Char)
  | [] => none
  | c :: cs => if c == '\x7d' then some cs else afterBrace? cs

/-- A tag meets a name looked for in a namespace. Empty braces stand for no namespace, and a star in
braces for any or none. -/
def meets (space name tag : String) : Bool :=
  if space == "\x7b\x7d" then tag == name
  else if space == "\x7b*\x7d" then
    tag == name || ("\x7d" ++ name).toList.reverse.isPrefixOf tag.toList.reverse
  else tag == space ++ name

/-! ### Places -/

def at? (e : Element) : List Nat → Option Element
  | [] => some e
  | i :: place => match e.children[i]? with
    | some child => child.at? place
    | none => none

/-- A text set at a place; nothing changes when there is no such place. -/
def setText (t : String) (e : Element) : List Nat → Element
  | [] => e.withText t
  | i :: place => match e with
    | mk tag text tail attributes children =>
      mk tag text tail attributes (children.modify i fun child => child.setText t place)

/-- The places at the end of a way of names, in document order. -/
def places (space : String) : List String → Element → List (List Nat)
  | [], _ => [[]]
  | name :: way, e =>
    (e.children.zipIdx.filter fun (child, _) => meets space name child.tag).flatMap
      fun (child, i) => (places space way child).map (i :: ·)

/-! ### Changing tags and children -/

mutual

/-- Everything up to the first closing brace taken off the tags that start with the namespace, in
document order. A tag without a brace ends the work; the flag says that there was none. -/
def unqualify (space : String) : Element → Element × Bool
  | mk tag text tail attributes children =>
    if space.toList.isPrefixOf tag.toList then
      match afterBrace? tag.toList with
      | none => (mk tag text tail attributes children, false)
      | some own =>
        let (children, done) := unqualifyAll space children
        (mk (String.ofList own) text tail attributes children, done)
    else
      let (children, done) := unqualifyAll space children
      (mk tag text tail attributes children, done)

def unqualifyAll (space : String) : List Element → List Element × Bool
  | [] => ([], true)
  | e :: es =>
    match unqualify space e with
    | (e, false) => (e :: es, false)
    | (e, true) =>
      let (es, done) := unqualifyAll space es
      (e :: es, done)

end

/-- The first child with a tag, and the element with a new last child in case it had none. -/
def childOr (e : Element) (tag : String) (fresh : Element) : Element × Element :=
  match e.children.find? (·.tag == tag) with
  | some child => (child, e)
  | none => match e with
    | mk own text tail attributes children =>
      (fresh, mk own text tail attributes (children ++ [fresh]))

/-- The first child with a tag changed, or a fresh one changed and put last. -/
def withChild (e : Element) (tag : String) (fresh : Element) (f : Element → Element) : Element :=
  let changed := match e.children.findIdx? (·.tag == tag) with
    | some i => e.children.modify i f
    | none => e.children ++ [f fresh]
  mk e.tag e.text e.tail e.attributes changed

end Element

/-! ### Writing -/

/-- A piece of a written description. -/
inductive Piece where
  | start (tag : String)
  | setting (key value : String)
  | text (text : String)
  | stop (tag : String)
  deriving DecidableEq, Repr

/-- The calls that it takes to write a piece of an element: one, and one inside it where a character
cannot stand for itself. -/
def Piece.calls : Piece → Nat
  | text t => if t.toList.any ['&', '<', '>'].contains then 2 else 1
  | setting _ v => if v.toList.any ['&', '<', '>', '"', '\r', '\n', '\t'].contains then 2 else 1
  | _ => 1

namespace Element

mutual

/-- The pieces of an element that is so many levels down, in order, each with the number of calls that
are open inside one another when it is written: one for each level, and those for the piece. -/
def writes (level : Nat) : Element → List (Nat × Piece)
  | mk tag text tail attributes children =>
    let put (ps : List Piece) := ps.map fun p => (level + p.calls, p)
    put (.start tag :: attributes.map (fun a => .setting a.1 a.2) ++ text.toList.map .text) ++
      writesAll (level + 1) children ++ put (.stop tag :: tail.toList.map .text)

def writesAll (level : Nat) : List Element → List (Nat × Piece)
  | [] => []
  | e :: es => writes level e ++ writesAll level es

end

/-- What a file holds after an attempt to write a description to it, with room for so many calls
inside one another: all pieces up to the first one that needs more. -/
def written (room : Nat) (e : Element) : List Piece :=
  ((e.writes 1).takeWhile fun w => w.1 ≤ room).map (·.2)

end Element
end RegexCorpus.Pom
