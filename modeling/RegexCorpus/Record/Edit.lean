import RegexCorpus.Json.Line

/-!
# Editing records

A record is filled field by field, and an edit that fails keeps what was set before the failure. So
an edit is a step on the record that also says how it ended: `Edit σ`. Edits that consult an outside
tool run on the record and on the tools' replies: `Ask σ`.
-/

namespace RegexCorpus

/-- A computation on a record that may fail half-way. -/
abbrev Edit (σ : Type) := ExceptT Fault (StateM σ)

/-- What a command printed and the code with which it ended. -/
structure Reply where
  code : Int := 0
  output : String := ""
  deriving Repr, Inhabited

/-- What came back from a web address. -/
inductive Page where
  | text (body : String)
  | interrupted
  | unavailable
  deriving Repr, Inhabited

/-- The outside tools: the replies that they will give, and what they have been asked. Once the
replies are used up, every command succeeds and prints nothing. -/
structure Tools where
  replies : List Reply := []
  page : Page := .unavailable
  queries : List String := []
  addresses : List Value := []
  deriving Repr, Inhabited

/-- A computation that asks the tools. -/
abbrev Consult := ExceptT Fault (StateM Tools)

/-- An edit of a record that also asks the tools. -/
abbrev Ask (σ : Type) := ExceptT Fault (StateT σ (StateM Tools))

def Ask.ofEdit {σ α : Type} (e : Edit σ α) : Ask σ α := fun s => pure (e.run s)

def Ask.ofConsult {σ α : Type} (c : Consult α) : Ask σ α := fun s t =>
  let (r, t) := c.run t
  ((r, s), t)

/-- A command run on a query; the next reply answers it. -/
def consult (query : String) : Consult Reply := do
  let tools ← get
  set { tools with queries := tools.queries ++ [query], replies := tools.replies.tail }
  return tools.replies.head?.getD {}

/-- The body of a web page. -/
def fetch (address : Value) : Consult String := do
  let tools ← get
  set { tools with addresses := tools.addresses ++ [address] }
  match tools.page with
  | .text body => return body
  | .interrupted => throw .interrupted
  | .unavailable => throw (.other "Exception")

/-- A slot of a record that should hold a record of its own, and may hold any data. -/
inductive Held (α : Type) where
  | record (a : α)
  | plain (v : Value)

/-- A slot that should hold a list of records, and may hold any data. -/
inductive Records (α : Type) where
  | items (xs : List (Held α))
  | plain (v : Value)

/-- What walking through the slot gives. -/
def Records.parts {α : Type} : Records α → Outcome (List (Held α))
  | .items xs => .ok xs
  | .plain v => do return (← v.parts).map .plain

/-- The record in a slot; other data has none of its fields. -/
def Held.get {α : Type} : Held α → Outcome α
  | .record a => .ok a
  | .plain _ => .error .missingField

/-- A field of the record that was never set cannot be read. -/
def field {α : Type} (f : Option α) : Outcome α :=
  match f with
  | some v => .ok v
  | none => .error .missingField

/-- Fields set one after the other from their readings, until one of these fails. -/
def fillIn {σ : Type} : List (Outcome Value × (Value → σ → σ)) → Edit σ Unit
  | [] => pure ()
  | (reading, set) :: steps => do
    let v ← reading
    modify (set v)
    fillIn steps

/-- Fields that are set from the entries of an object, until one is missing. -/
def setFields {σ : Type} (obj : Value) (fs : List (String × (Value → σ → σ))) : Edit σ Unit :=
  fillIn (fs.map fun f => (obj.get f.1, f.2))

/-- A field that is set from an object when it has the key, and to a default otherwise. -/
def setOptional {σ : Type} (obj : Value) (key : String) (default : Value) (set : Value → σ → σ) :
    Edit σ Unit :=
  fillIn [(obj.getOr key default, set)]

/-- A field of a record that holds data once it is set. A field with a default may be missing in the
object from which the record is filled. -/
structure DataField (σ : Type) where
  name : String
  default : Option Value
  get : σ → Option Value
  set : Value → σ → σ

def DataField.reading {σ : Type} (f : DataField σ) (obj : Value) : Outcome Value :=
  match f.default with
  | none => obj.get f.name
  | some default => obj.getOr f.name default

/-- The fields of a record that hold data, in the order in which they are set. -/
abbrev DataFields (σ : Type) := List (DataField σ)

namespace DataFields
variable {σ : Type}

def readFrom (fs : DataFields σ) (obj : Value) : Edit σ Unit :=
  fillIn (fs.map fun f => (f.reading obj, f.set))

/-- The record after its fields have been set. -/
def setAll (fs : DataFields σ) (vs : List Value) (s : σ) : σ :=
  (fs.zip vs).foldl (fun s e => e.1.set e.2 s) s

/-- The fields of a record with what they hold. -/
def entries (fs : DataFields σ) (r : σ) : List (String × Option Value) :=
  fs.map fun f => (f.name, f.get r)

end DataFields

/-- The record at the end of an edit that did not fail. -/
def Edit.made {σ : Type} (e : Edit σ Unit) (s : σ) : Outcome σ :=
  match e.run s with
  | (.ok (), s) => .ok s
  | (.error f, _) => .error f

/-- A record on a line that names its kind as the type. -/
def byType {κ α : Type} (ofName? : Value → Option κ) (read : κ → Outcome α) (line : Value)
    (room : Nat) : Outcome α := do
  let obj ← Json.ofLine line room
  if !(← obj.has (.str "type")) then
    throw (.badValue ("Error no type in jsonStr: " ++ line.display))
  let type ← obj.get "type"
  match ofName? type with
  | none => throw (.badValue ("Error, unexpected type " ++ type.display))
  | some kind => read kind

/-- A value that is given, or else the default; null stands for a value that is not given. -/
def given (v default : Value) : Value :=
  match v with
  | .null => default
  | v => v

/-- An object of fields that all have to be set. -/
def members : List (String × Option Value) → Outcome Value
  | fs => do return Value.object (← fs.mapM fun (k, f) => do return (k, ← field f))

/-- The value as it comes back after being written and read. -/
def reread (v : Value) : Outcome Value := Json.parse (Json.render v)

/-- An item put at the end of a list; only lists take one. -/
def append (v item : Value) : Outcome Value :=
  match v with
  | .list xs => .ok (.list (xs ++ [item]))
  | _ => .error .missingField

end RegexCorpus
