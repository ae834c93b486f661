import RegexCorpus.Pom.Element
import RegexCorpus.Value.Basic

/-!
# Elements as data

An element as an object: `tag`, and unless they are missing or empty `text`, `tail`, `attrib` and
`children`.
-/

namespace RegexCorpus.Pom.Element

def textUnder? (es : Entries) (key : String) : Option String :=
  match Entries.find? es (.str key) with
  | some (.str s) => some s
  | _ => none

def attributesIn (es : Entries) : List (String × String) :=
  match Entries.find? es (.str "attrib") with
  | some (.dict as) => as.filterMap fun
    | (.str name, .str s) => some (name, s)
    | _ => none
  | _ => []

mutual

def ofValue : Value → Element
  | .dict es => mk ((textUnder? es "tag").getD "") (textUnder? es "text") (textUnder? es "tail")
      (attributesIn es) (childrenIn es)
  | _ => mk "" none none [] []

def childrenIn : List (Atom × Value) → List Element
  | [] => []
  | (.str "children", v) :: _ => ofItems v
  | _ :: es => childrenIn es

def ofItems : Value → List Element
  | .list vs => ofList vs
  | _ => []

def ofList : List Value → List Element
  | [] => []
  | v :: vs => ofValue v :: ofList vs

end

mutual

def toValue : Element → Value
  | mk tag text tail attributes children =>
    .object (("tag", .str tag) :: (text.toList.map fun t => ("text", .str t)) ++
      (tail.toList.map fun t => ("tail", .str t)) ++
      (if attributes.isEmpty then []
        else [("attrib", .object (attributes.map fun a => (a.1, .str a.2)))]) ++
      (if children.isEmpty then [] else [("children", .list (toList children))]))

def toList : List Element → List Value
  | [] => []
  | e :: es => toValue e :: toList es

end

end RegexCorpus.Pom.Element
