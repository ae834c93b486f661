import RegexCorpus.Number.Double
import RegexCorpus.Text.Digit

/-!
# Shortest decimals

The text of a double is the decimal with the fewest digits that reads back as the same double, and
of those with as few digits the nearest one. `Double.shortest` finds it by trying the two
neighbours of the value on the grid of one digit, of two digits, and so on; `Double.render` writes
it, positionally where the point falls near the digits and with an exponent elsewhere.
-/

namespace RegexCorpus.Double

/-- A decimal number, `digits · 10 ^ exponent`. -/
structure Decimal where
  digits : Nat
  exponent : Int
  deriving DecidableEq, Repr

/-- The interval of the reals that round to `mantissa · 2 ^ exponent`, as numerators over a common
denominator: the value, its lower and its upper end, and the denominator. -/
structure Rounding where
  value : Nat
  lower : Nat
  upper : Nat
  den : Nat
  closed : Bool

/-- The interval of a finite double other than zero. The gap below a power of two is half the gap
above it; the ends belong to the interval when the mantissa is even. -/
def rounding (mantissa : Nat) (exponent : Int) : Rounding :=
  let below := if mantissa == Nat.pow 2 52 && exponent > -1074 then 1 else 2
  let at' (n : Nat) : Nat := (scaled n 1 (exponent - 2)).1
  { value := at' (4 * mantissa)
    lower := at' (4 * mantissa - below)
    upper := at' (4 * mantissa + 2)
    den := (scaled 1 1 (exponent - 2)).2
    closed := mantissa % 2 == 0 }

def Rounding.covers (r : Rounding) (d : Decimal) : Bool :=
  let (num, den) := match d.exponent with
    | .ofNat k => (d.digits * Nat.pow 10 k, 1)
    | .negSucc k => (d.digits, Nat.pow 10 (k + 1))
  if r.closed then
    decide (r.lower * den ≤ num * r.den) && decide (num * r.den ≤ r.upper * den)
  else decide (r.lower * den < num * r.den) && decide (num * r.den < r.upper * den)

/-- The neighbours of the value on the grid `10 ^ exponent`: the digits of the lower one, and how
the value lies between the two. -/
def Rounding.grid (r : Rounding) (exponent : Int) : Nat × Ordering :=
  let (num, den) := match exponent with
    | .ofNat k => (r.value, r.den * Nat.pow 10 k)
    | .negSucc k => (r.value * Nat.pow 10 (k + 1), r.den)
  (num / den, compare (2 * (num % den)) den)

/-- The least `p` with the value below `10 ^ p`, searched upwards from `p`. -/
def Rounding.magnitude (r : Rounding) : Nat → Int → Int
  | 0, p => p
  | fuel + 1, p =>
    if (r.grid p).1 == 0 then p else r.magnitude fuel (p + 1)

/-- A lower bound of the magnitude, from the numbers of bits. -/
def Rounding.magnitudeBound (r : Rounding) : Int :=
  ((Nat.log2 r.value : Int) - Nat.log2 r.den) * 30103 / 100000 - 1

/-- The shortest covered decimal of at least `n` digits, trying up to `n + fuel`. -/
def Rounding.shortestFrom (r : Rounding) (magnitude : Int) : Nat → Nat → Decimal
  | 0, n => ⟨(r.grid (magnitude - n)).1, magnitude - n⟩
  | fuel + 1, n =>
    let e := magnitude - n
    let (low, side) := r.grid e
    let below : Decimal := ⟨low, e⟩
    let above : Decimal := ⟨low + 1, e⟩
    match r.covers below, r.covers above with
    | true, true =>
      match side with
      | .lt => below
      | .gt => above
      | .eq => if low % 2 == 0 then below else above
    | true, false => below
    | false, true => above
    | false, false => r.shortestFrom magnitude fuel (n + 1)

/-- Trailing zeros moved into the exponent. -/
def Decimal.normalize : Nat → Decimal → Decimal
  | 0, d => d
  | fuel + 1, d =>
    if d.digits % 10 == 0 && d.digits != 0 then normalize fuel ⟨d.digits / 10, d.exponent + 1⟩ else d

/-- The decimal with the fewest digits that rounds to the double. -/
def shortest (mantissa : Nat) (exponent : Int) : Decimal :=
  let r := rounding mantissa exponent
  (r.shortestFrom (r.magnitude 8 r.magnitudeBound) 17 1).normalize 20

/-- How doubles are written: the least and greatest position of the point that is written without an
exponent, and the least number of digits of an exponent. -/
structure Format where
  leastPoint : Int
  greatestPoint : Int
  exponentWidth : Nat

/-- Numbers from a ten-thousandth up to ten to the sixteenth are written positionally, and an
exponent has two digits at least. -/
def format : Format := ⟨-3, 16, 2⟩

/-- The text of a decimal: `point` digits stand before the point. -/
def Decimal.render (f : Format) (d : Decimal) : String :=
  let ds := Nat.toDigits 10 d.digits
  let point : Int := ds.length + d.exponent
  if f.leastPoint ≤ point && point ≤ f.greatestPoint then
    if point ≤ 0 then
      "0." ++ String.ofList (List.replicate (-point).toNat '0' ++ ds)
    else
      let k := point.toNat
      let whole := ds.take k ++ List.replicate (k - ds.length) '0'
      let fraction := ds.drop k
      String.ofList whole ++ "." ++ (if fraction.isEmpty then "0" else String.ofList fraction)
  else
    let e := point - 1
    let mantissa := match ds with
      | [] => ""
      | [c] => String.ofList [c]
      | c :: rest => String.ofList (c :: '.' :: rest)
    let digits := Text.ofNat e.natAbs
    let zeros := String.ofList (List.replicate (f.exponentWidth - digits.length) '0')
    mantissa ++ "e" ++ (if e < 0 then "-" else "+") ++ zeros ++ digits

/-- The text of a double, with the names of the values that are no number or not finite. -/
def renderWith (nanName infinityName : String) : Double → String
  | nan => nanName
  | infinite s => (if s then "-" else "") ++ infinityName
  | finite s m e =>
    (if s then "-" else "") ++ (if m == 0 then "0.0" else (shortest m e).render format)

def render : Double → String := renderWith "nan" "inf"

end RegexCorpus.Double
