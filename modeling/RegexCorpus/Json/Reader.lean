import RegexCorpus.Json.Limit
import RegexCorpus.Text.Unit

/-!
# Reading JSON

A reader for JSON texts that also takes `NaN`, `Infinity` and `-Infinity`. Whole numbers keep all
their digits; a number with a fraction or an exponent is a double. A repeated key keeps its first
place and its last value. Lists and objects are read as far as there is room.
-/

namespace RegexCorpus.Json

/-- The blanks between tokens. -/
def isSpace (c : Char) : Bool := c == ' ' || c == '\t' || c == '\n' || c == '\r'

/-- The text after leading blanks. -/
def skipSpace (cs : List Char) : List Char := cs.dropWhile isSpace

/-! ### Strings -/

def hexValue? (c : Char) : Option Nat :=
  if '0' ≤ c && c ≤ '9' then some (c.toNat - '0'.toNat)
  else if 'a' ≤ c && c ≤ 'f' then some (c.toNat - 'a'.toNat + 10)
  else if 'A' ≤ c && c ≤ 'F' then some (c.toNat - 'A'.toNat + 10)
  else none

/-- The code unit written by four hexadecimal digits. -/
def unit? (a b c d : Char) : Option Nat := do
  return ((← hexValue? a) * 16 + (← hexValue? b)) * 256 + (← hexValue? c) * 16 + (← hexValue? d)

/-- The code of a character written with a backslash. -/
def escaped? (c : Char) : Option Nat :=
  if c == '"' || c == '\\' || c == '/' then some c.toNat
  else if c == 'b' then some 8
  else if c == 'f' then some 12
  else if c == 'n' then some 10
  else if c == 'r' then some 13
  else if c == 't' then some 9
  else none

/-- The code units of a string up to its closing quote, and the text after it. -/
def readUnits : List Char → Option (List Nat × List Char)
  | [] => none
  | c :: cs =>
    if c == '"' then some ([], cs)
    else if c == '\\' then
      match cs with
      | 'u' :: h₁ :: h₂ :: h₃ :: h₄ :: rest =>
        match unit? h₁ h₂ h₃ h₄, readUnits rest with
        | some n, some (us, r) => some (n :: us, r)
        | _, _ => none
      | e :: rest =>
        match escaped? e, readUnits rest with
        | some n, some (us, r) => some (n :: us, r)
        | _, _ => none
      | [] => none
    else if c.toNat < 0x20 then none
    else (readUnits cs).map fun (us, r) => (c.toNat :: us, r)

/-- A string after its opening quote. -/
def readString (cs : List Char) : Outcome (String × List Char) :=
  match readUnits cs with
  | some (us, rest) => .ok (String.ofList (Text.ofUnits us), rest)
  | none => .error .malformedJson

/-! ### Numbers -/

def isDigit (c : Char) : Bool := '0' ≤ c && c ≤ '9'

/-- The number written by ASCII digits. -/
def natOfDigits (ds : List Char) : Nat := ds.foldl (fun n c => 10 * n + (c.toNat - '0'.toNat)) 0

/-- The digits of a whole part: a zero alone, or digits that start with another one. -/
def readWhole? : List Char → Option (List Char × List Char)
  | [] => none
  | c :: cs =>
    if c == '0' then some (['0'], cs)
    else if isDigit c then some (c :: cs.takeWhile isDigit, cs.dropWhile isDigit)
    else none

/-- The digits after a point, if a point and a digit come next. -/
def readFraction : List Char → List Char × List Char
  | '.' :: cs =>
    if (cs.takeWhile isDigit).isEmpty then ([], '.' :: cs)
    else (cs.takeWhile isDigit, cs.dropWhile isDigit)
  | cs => ([], cs)

def readExponent? (cs : List Char) : Option (Int × List Char) :=
  match cs with
  | e :: rest =>
    if e == 'e' || e == 'E' then
      let (negative, ds) := match rest with
        | '-' :: ds => (true, ds)
        | '+' :: ds => (false, ds)
        | ds => (false, ds)
      if (ds.takeWhile isDigit).isEmpty then none
      else
        let n : Int := natOfDigits (ds.takeWhile isDigit)
        some (if negative then -n else n, ds.dropWhile isDigit)
    else none
  | [] => none

def readNumber (negative : Bool) (cs : List Char) : Outcome (Value × List Char) :=
  match readWhole? cs with
  | none => .error .malformedJson
  | some (whole, rest) =>
    let (fraction, rest) := readFraction rest
    match readExponent? rest with
    | some (e, rest) =>
      .ok (.double (.ofDecimal negative (natOfDigits (whole ++ fraction)) (e - fraction.length)), rest)
    | none =>
      if !fraction.isEmpty then
        .ok (.double (.ofDecimal negative (natOfDigits (whole ++ fraction)) (-fraction.length)), rest)
      else if whole.length > digitLimit then .error (.badValue "")
      else
        let n : Int := natOfDigits whole
        .ok (.int (if negative then -n else n), rest)

/-! ### Values -/

def constants : List (List Char × Value) :=
  [("null".toList, .null), ("true".toList, .bool true), ("false".toList, .bool false),
   ("NaN".toList, .double .nan), ("Infinity".toList, .double (.infinite false)),
   ("-Infinity".toList, .double (.infinite true))]

/-- A fixed value at the start of the text. -/
def readConstant? (cs : List Char) : Option (Value × List Char) :=
  (constants.find? (fun c => c.1.isPrefixOf cs)).map fun c => (c.2, cs.drop c.1.length)

def readScalar (cs : List Char) : Outcome (Value × List Char) :=
  match readConstant? cs with
  | some r => .ok r
  | none => match cs with
    | '-' :: rest => readNumber true rest
    | _ => readNumber false cs

mutual

/-- A value at the start of the text, and the text after it. Each call spends one unit of `fuel`, and
each list or object that is entered one unit of `room`. -/
def readValue : Nat → Nat → List Char → Outcome (Value × List Char)
  | 0, _, _ => .error .tooDeep
  | fuel + 1, room, cs =>
    match cs, room with
    | '"' :: rest, _ => do
      let (s, rest) ← readString rest
      return (.str s, rest)
    | '[' :: _, 0 => .error .tooDeep
    | '[' :: rest, room + 1 =>
      match skipSpace rest with
      | ']' :: rest => .ok (.list [], rest)
      | rest => do
        let (xs, rest) ← readItems fuel room rest
        return (.list xs, rest)
    | '\x7b' :: _, 0 => .error .tooDeep
    | '\x7b' :: rest, room + 1 =>
      match skipSpace rest with
      | '\x7d' :: rest => .ok (.dict [], rest)
      | rest => do
        let (ms, rest) ← readMembers fuel room rest
        return (.dict (Entries.ofPairs ms), rest)
    | _, _ => readScalar cs

/-- The items of a list up to its closing bracket. -/
def readItems : Nat → Nat → List Char → Outcome (List Value × List Char)
  | 0, _, _ => .error .tooDeep
  | fuel + 1, room, cs => do
    let (x, rest) ← readValue fuel room cs
    match skipSpace rest with
    | ']' :: rest => return ([x], rest)
    | ',' :: rest => do
      let (xs, rest) ← readItems fuel room (skipSpace rest)
      return (x :: xs, rest)
    | _ => .error .malformedJson

/-- The members of an object up to its closing brace. -/
def readMembers : Nat → Nat → List Char → Outcome (List (Atom × Value) × List Char)
  | 0, _, _ => .error .tooDeep
  | fuel + 1, room, cs =>
    match cs with
    | '"' :: rest => do
      let (k, rest) ← readString rest
      match skipSpace rest with
      | ':' :: rest => do
        let (v, rest) ← readValue fuel room (skipSpace rest)
        match skipSpace rest with
        | '\x7d' :: rest => return ([(.str k, v)], rest)
        | ',' :: rest => do
          let (ms, rest) ← readMembers fuel room (skipSpace rest)
          return ((.str k, v) :: ms, rest)
        | _ => .error .malformedJson
      | _ => .error .malformedJson
    | _ => .error .malformedJson

end

/-- Every token spends at most two units. -/
def fuelFor (cs : List Char) : Nat := 2 * cs.length + 2

def parse (s : String) (room : Nat := nestingLimit) : Outcome Value := do
  let cs := skipSpace s.toList
  let (v, rest) ← readValue (fuelFor cs) room cs
  if (skipSpace rest).isEmpty then return v else .error .malformedJson

end RegexCorpus.Json
