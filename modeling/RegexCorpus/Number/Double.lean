/-!
# Binary fractions of double precision

A finite double is `± mantissa · 2 ^ exponent` with a mantissa below `2 ^ 53`. All arithmetic goes
through one function, `Double.ofRatio`, which rounds an exact quotient to the nearest double, a
tie to the even mantissa. Everything is computed with natural numbers, so results can be compared
by evaluation.
-/

namespace RegexCorpus

/-- A number of double precision. Finite ones are in lowest form: the mantissa has 53 bits, or the
exponent is the least one, -1074. -/
inductive Double where
  | nan
  | infinite (negative : Bool)
  | finite (negative : Bool) (mantissa : Nat) (exponent : Int)
  deriving DecidableEq, Repr, Inhabited

namespace Double

def zero (negative : Bool) : Double := finite negative 0 (-1074)

/-- `num · 2 ^ shift` as a fraction of natural numbers. -/
def scaled (num den : Nat) (shift : Int) : Nat × Nat :=
  match shift with
  | .ofNat k => (num * Nat.pow 2 k, den)
  | .negSucc k => (num, den * Nat.pow 2 (k + 1))

/-- The quotient rounded to a whole number, a tie to the even neighbour. -/
def roundDiv (num den : Nat) : Nat :=
  let q := num / den
  let r := num % den
  if 2 * r < den || (2 * r == den && q % 2 == 0) then q else q + 1

def ofRatio (negative : Bool) (num den : Nat) : Double :=
  if num == 0 then zero negative
  else
    let guess : Int := (Nat.log2 num : Int) - (Nat.log2 den : Int) - 52
    let (n, d) := scaled num den (-guess)
    let e := max (if n / d < Nat.pow 2 52 then guess - 1 else guess) (-1074)
    let (n, d) := scaled num den (-e)
    let m := roundDiv n d
    let (m, e) := if m == Nat.pow 2 53 then (Nat.pow 2 52, e + 1) else (m, e)
    if e > 971 then infinite negative else finite negative m e

def ofInt (n : Int) : Double := ofRatio (n < 0) n.natAbs 1

/-- The quotient of two natural numbers. -/
def ofQuotient (num den : Nat) : Double := ofRatio false num den

/-- The integer `m` with the value `m · 2 ^ e`, given an exponent `e` not above the double's own. -/
def mantissaAt (negative : Bool) (mantissa : Nat) (exponent e : Int) : Int :=
  let m : Int := mantissa * Int.pow 2 (exponent - e).toNat
  if negative then -m else m

def toFraction? : Double → Option (Int × Nat)
  | finite negative mantissa exponent =>
    some (mantissaAt negative mantissa exponent (min exponent 0), Nat.pow 2 (-exponent).toNat)
  | _ => none

/-- The sum, rounded once. -/
def add : Double → Double → Double
  | nan, _ => nan
  | _, nan => nan
  | infinite s, infinite t => if s == t then infinite s else nan
  | infinite s, finite _ _ _ => infinite s
  | finite _ _ _, infinite t => infinite t
  | finite s m e, finite t n f =>
    let low := min e f
    let sum := mantissaAt s m e low + mantissaAt t n f low
    if sum == 0 then zero (s && t)
    else
      let (num, den) := scaled sum.natAbs 1 low
      ofRatio (sum < 0) num den

/-- The product, rounded once. -/
def mul : Double → Double → Double
  | nan, _ => nan
  | _, nan => nan
  | infinite s, infinite t => infinite (s != t)
  | infinite s, finite t n _ => if n == 0 then nan else infinite (s != t)
  | finite s m _, infinite t => if m == 0 then nan else infinite (s != t)
  | finite s m e, finite t n f =>
    let (num, den) := scaled (m * n) 1 (e + f)
    ofRatio (s != t) num den

/-- The order of two doubles, `none` when one of them is no number. -/
def compare? : Double → Double → Option Ordering
  | nan, _ => none
  | _, nan => none
  | infinite s, infinite t => some (compare (if s then 0 else 1) (if t then 0 else 1))
  | infinite s, finite _ _ _ => some (if s then .lt else .gt)
  | finite _ _ _, infinite t => some (if t then .gt else .lt)
  | finite s m e, finite t n f =>
    let low := min e f
    some (compare (mantissaAt s m e low) (mantissaAt t n f low))

/-- The order of a double and an integer, taken exactly. -/
def compareInt? : Double → Int → Option Ordering
  | nan, _ => none
  | infinite s, _ => some (if s then .lt else .gt)
  | finite s m e, k =>
    let low := min e 0
    some (compare (mantissaAt s m e low) (k * Int.pow 2 (0 - low).toNat))

def isZero : Double → Bool
  | finite _ m _ => m == 0
  | _ => false

/-- The value rounded down to an integer; `none` when it is not finite. -/
def floor? : Double → Option Int
  | finite s m e =>
    let low := min e 0
    some (Int.fdiv (mantissaAt s m e low) (Int.pow 2 (0 - low).toNat))
  | _ => none

/-- The double nearest to `± digits · 10 ^ exponent`. Exponents far outside the range are cut
first, which changes no result. -/
def ofDecimal (negative : Bool) (digits : Nat) (exponent : Int) : Double :=
  if digits == 0 then zero negative
  else
    let size : Int := (Nat.toDigits 10 digits).length + exponent
    if size > 400 then infinite negative
    else if size < -400 then zero negative
    else match exponent with
      | .ofNat k => ofRatio negative (digits * Nat.pow 10 k) 1
      | .negSucc k => ofRatio negative digits (Nat.pow 10 (k + 1))

end Double
end RegexCorpus
