/-!
# Code units

A character beyond the first `0x10000` is written by two code units of sixteen bits, a high and a low
half. A text may also hold a half by itself, for which no character exists; the private-use character
`0x100000` above it stands for it. A text that was read holds no high half right before a low one,
since the two would have been read as a pair. In other texts the stand-in of such a high half is
written out like any other character, so that `units` can be undone.
-/

namespace RegexCorpus.Text

def isHighHalf (n : Nat) : Bool := decide (0xd800 ≤ n) && decide (n < 0xdc00)

def isLowHalf (n : Nat) : Bool := decide (0xdc00 ≤ n) && decide (n < 0xe000)

def half? (c : Char) : Option Nat :=
  if 0x10d800 ≤ c.toNat && c.toNat < 0x10e000 then some (c.toNat - 0x100000) else none

/-- The character of a single code unit. -/
def ofUnit (n : Nat) : Char :=
  Char.ofNat (if isHighHalf n || isLowHalf n then 0x100000 + n else n)

/-- The characters of code units, the two halves of a pair joined. -/
def ofUnits : List Nat → List Char
  | [] => []
  | [n] => [ofUnit n]
  | m :: n :: us =>
    if isHighHalf m && isLowHalf n then
      Char.ofNat (0x10000 + (m - 0xd800) * 0x400 + (n - 0xdc00)) :: ofUnits us
    else ofUnit m :: ofUnits (n :: us)

/-- The two halves of a character beyond the first `0x10000`. -/
def halves (c : Char) : List Nat :=
  [0xd800 + (c.toNat - 0x10000) / 0x400, 0xdc00 + (c.toNat - 0x10000) % 0x400]

/-- The characters begin with a low half by itself. -/
def startsLow (cs : List Char) : Bool := (cs.head?.bind half?).any isLowHalf

def units : List Char → List Nat
  | [] => []
  | c :: cs =>
    (match half? c with
      | some n => if isHighHalf n && startsLow cs then halves c else [n]
      | none => if c.toNat < 0x10000 then [c.toNat] else halves c) ++ units cs

/-- The text holds no half by itself, so that it can be stored. -/
def isWhole (s : String) : Bool := s.toList.all fun c => (half? c).isNone

end RegexCorpus.Text
