/-!
# Bytes and texts

UTF-8: `encode` writes a text as bytes, `decode?` reads bytes that are well formed, and
`decodeLossy` puts the replacement character in place of each longest piece that can start no
character. `fault?` says where bytes stop being well formed.
-/

namespace RegexCorpus.Text

def encode (s : String) : List UInt8 := s.toUTF8.toList

/-- A byte of the form `10xxxxxx` within bounds. -/
def continues (lo hi : Nat) (b : UInt8) : Bool := decide (lo ≤ b.toNat) && decide (b.toNat ≤ hi)

/-- The least and greatest second byte allowed after a leading byte, and how many bytes follow the
leading one; `none` when no character of several bytes starts so. -/
def leading? (b : Nat) : Option (Nat × Nat × Nat) :=
  if 0xc2 ≤ b && b ≤ 0xdf then some (0x80, 0xbf, 1)
  else if b == 0xe0 then some (0xa0, 0xbf, 2)
  else if b == 0xed then some (0x80, 0x9f, 2)
  else if 0xe1 ≤ b && b ≤ 0xef then some (0x80, 0xbf, 2)
  else if b == 0xf0 then some (0x90, 0xbf, 3)
  else if 0xf1 ≤ b && b ≤ 0xf3 then some (0x80, 0xbf, 3)
  else if b == 0xf4 then some (0x80, 0x8f, 3)
  else none

/-- What is left of a character being read: the value so far, the bounds of the next byte, and the
number of bytes after it. -/
structure Pending where
  value : Nat
  lo : Nat
  hi : Nat
  more : Nat

/-- Reading a first byte: the characters it settles and what it leaves open. -/
def start (b : UInt8) : List (Option Char) × Option Pending :=
  if b.toNat < 0x80 then ([some (Char.ofNat b.toNat)], none)
  else match leading? b.toNat with
    | some (lo, hi, n) => ([], some ⟨b.toNat % Nat.pow 2 (6 - n), lo, hi, n - 1⟩)
    | none => ([none], none)

/-- Reading one more byte. A byte that does not fit closes the open piece as ill formed and is read
again as a first byte. -/
def resume : Option Pending → UInt8 → List (Option Char) × Option Pending
  | none, b => start b
  | some p, b =>
    if continues p.lo p.hi b then
      let value := p.value * 64 + b.toNat % 64
      if p.more == 0 then ([some (Char.ofNat value)], none)
      else ([], some ⟨value, 0x80, 0xbf, p.more - 1⟩)
    else (none :: (start b).1, (start b).2)

/-- The characters of the bytes; `none` stands for an ill-formed piece. -/
def decodeFrom : Option Pending → List UInt8 → List (Option Char)
  | none, [] => []
  | some _, [] => [none]
  | p, b :: bs => (resume p b).1 ++ decodeFrom (resume p b).2 bs

/-- The text of well-formed bytes. -/
def decode? (bs : List UInt8) : Option String :=
  ((decodeFrom none bs).mapM id).map String.ofList

/-- The text of any bytes, ill-formed pieces replaced. -/
def decodeLossy (bs : List UInt8) : String :=
  String.ofList ((decodeFrom none bs).map (·.getD (Char.ofNat 0xfffd)))

/-- The number of bytes before the one at which the text is found to be ill formed; a character that
breaks off is found at the end. `n` bytes have been read. -/
def faultFrom? : Option Pending → Nat → List UInt8 → Option Nat
  | none, _, [] => none
  | some _, n, [] => some n
  | p, n, b :: bs =>
    if (resume p b).1.any Option.isNone then some n else faultFrom? (resume p b).2 (n + 1) bs

/-- The number of bytes before the first fault. -/
def fault? (bs : List UInt8) : Option Nat := faultFrom? none 0 bs

/-- The whole characters of bytes that may break off in the middle of one. -/
def decodeWhole (bs : List UInt8) : List Char := (decodeFrom none bs).filterMap id

end RegexCorpus.Text
