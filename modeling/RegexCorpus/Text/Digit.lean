import RegexCorpus.Text.Blank

/-!
# Decimal digits and whole numbers

Every script with its own decimal digits has ten of them in a row, so a digit is known from the
zero of its row. Whole numbers are read with blanks around them, a sign, and single underscores
between digits.
-/

namespace RegexCorpus.Text

def digitZeros : List Nat := [
  0x30, 0x660, 0x6f0, 0x7c0, 0x966, 0x9e6, 0xa66, 0xae6, 0xb66, 0xbe6, 0xc66, 0xce6, 0xd66,
  0xde6, 0xe50, 0xed0, 0xf20, 0x1040, 0x1090, 0x17e0, 0x1810, 0x1946, 0x19d0, 0x1a80, 0x1a90,
  0x1b50, 0x1bb0, 0x1c40, 0x1c50, 0xa620, 0xa8d0, 0xa900, 0xa9d0, 0xa9f0, 0xaa50, 0xabf0, 0xff10,
  0x104a0, 0x10d30, 0x11066, 0x110f0, 0x11136, 0x111d0, 0x112f0, 0x11450, 0x114d0, 0x11650,
  0x116c0, 0x11730, 0x118e0, 0x11950, 0x11c50, 0x11d50, 0x11da0, 0x16a60, 0x16ac0, 0x16b50,
  0x1d7ce, 0x1d7d8, 0x1d7e2, 0x1d7ec, 0x1d7f6, 0x1e140, 0x1e2f0, 0x1e950, 0x1fbf0]

def digitValue? (c : Char) : Option Nat :=
  (digitZeros.find? (fun z => z ≤ c.toNat && c.toNat < z + 10)).map (c.toNat - ·)

def isDigit (c : Char) : Bool := (digitValue? c).isSome

/-- The number written by digits, most significant first, starting from `acc`; `afterDigit` says
that a separating underscore may come next. -/
def readDigits? (acc : Nat) (afterDigit : Bool) : List Char → Option Nat
  | [] => if afterDigit then some acc else none
  | c :: cs =>
    match digitValue? c with
    | some d => readDigits? (10 * acc + d) true cs
    | none => if c == '_' && afterDigit then readDigits? acc false cs else none

/-- The most digits that a number is read from. -/
def maxDigits : Nat := 4300

/-- The number written by not too many digits. -/
def readNat? (cs : List Char) : Option Nat :=
  if (cs.filter isDigit).length ≤ maxDigits then readDigits? 0 false cs else none

/-- A blank that may stand beside a number; the four information separators may not. -/
def isMargin (c : Char) : Bool := isBlank c && !(0x1c ≤ c.toNat && c.toNat ≤ 0x1f)

/-- A whole number: blanks around it, an optional sign, digits with single underscores between
them. -/
def readInt? (s : String) : Option Int :=
  match ((s.toList.dropWhile isMargin).reverse.dropWhile isMargin).reverse with
  | '-' :: cs => (readNat? cs).map fun n => -(n : Int)
  | '+' :: cs => (readNat? cs).map fun n => (n : Int)
  | cs => (readNat? cs).map fun n => (n : Int)

/-- The decimal text of a natural number. -/
def ofNat (n : Nat) : String := String.ofList (Nat.toDigits 10 n)

def ofInt : Int → String
  | .ofNat n => ofNat n
  | .negSucc n => "-" ++ ofNat (n + 1)

end RegexCorpus.Text
