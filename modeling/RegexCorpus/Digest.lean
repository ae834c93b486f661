import RegexCorpus.Text.Unit
import RegexCorpus.Text.Utf8
import RegexCorpus.Value.Access

/-!
# Digests

The 128-bit digest of a text that names it in file names and tables: the message is padded to
blocks of sixteen words, and each block stirs four words of state in sixty-four steps.
-/

namespace RegexCorpus.Digest

structure State where
  a : UInt32
  b : UInt32
  c : UInt32
  d : UInt32

/-- The state before the first block. -/
def initial : State := ⟨0x67452301, 0xefcdab89, 0x98badcfe, 0x10325476⟩

/-- The amounts by which the words turn, four in each of the four rounds. -/
def turns : List (List UInt32) := [[7, 12, 17, 22], [5, 9, 14, 20], [4, 11, 16, 23], [6, 10, 15, 21]]

/-- The constants of the steps: the whole part of `2 ^ 32 · |sin i|` for `i` from 1 to 64. -/
def constants : List UInt32 := [
  0xd76aa478, 0xe8c7b756, 0x242070db, 0xc1bdceee, 0xf57c0faf, 0x4787c62a, 0xa8304613, 0xfd469501,
  0x698098d8, 0x8b44f7af, 0xffff5bb1, 0x895cd7be, 0x6b901122, 0xfd987193, 0xa679438e, 0x49b40821,
  0xf61e2562, 0xc040b340, 0x265e5a51, 0xe9b6c7aa, 0xd62f105d, 0x02441453, 0xd8a1e681, 0xe7d3fbc8,
  0x21e1cde6, 0xc33707d6, 0xf4d50d87, 0x455a14ed, 0xa9e3e905, 0xfcefa3f8, 0x676f02d9, 0x8d2a4c8a,
  0xfffa3942, 0x8771f681, 0x6d9d6122, 0xfde5380c, 0xa4beea44, 0x4bdecfa9, 0xf6bb4b60, 0xbebfbc70,
  0x289b7ec6, 0xeaa127fa, 0xd4ef3085, 0x04881d05, 0xd9d4d039, 0xe6db99e5, 0x1fa27cf8, 0xc4ac5665,
  0xf4292244, 0x432aff97, 0xab9423a7, 0xfc93a039, 0x655b59c3, 0x8f0ccc92, 0xffeff47d, 0x85845dd1,
  0x6fa87e4f, 0xfe2ce6e0, 0xa3014314, 0x4e0811a1, 0xf7537e82, 0xbd3af235, 0x2ad7d2bb, 0xeb86d391]

def turn (x n : UInt32) : UInt32 := (x <<< n) ||| (x >>> (32 - n))

/-- The mixing function and the index of the message word in step `i`. -/
def mix (i : Nat) (s : State) : UInt32 × Nat :=
  if i < 16 then ((s.b &&& s.c) ||| (~~~s.b &&& s.d), i)
  else if i < 32 then ((s.d &&& s.b) ||| (~~~s.d &&& s.c), (5 * i + 1) % 16)
  else if i < 48 then (s.b ^^^ s.c ^^^ s.d, (3 * i + 5) % 16)
  else (s.c ^^^ (s.b ||| ~~~s.d), (7 * i) % 16)

def step (block : Array UInt32) (s : State) (i : Nat) : State :=
  let (f, g) := mix i s
  let amount := ((turns[i / 16]?).bind (·[i % 4]?)).getD 0
  let sum := f + s.a + (constants[i]?).getD 0 + (block[g]?).getD 0
  ⟨s.d, s.b + turn sum amount, s.b, s.c⟩

def absorb (s : State) (block : Array UInt32) : State :=
  let t := (List.range 64).foldl (step block) s
  ⟨s.a + t.a, s.b + t.b, s.c + t.c, s.d + t.d⟩

/-- The bytes of a number, least significant first. -/
def littleEndian : Nat → Nat → List UInt8
  | 0, _ => []
  | k + 1, n => UInt8.ofNat (n % 256) :: littleEndian k (n / 256)

/-- The message with its padding and its length in bits. -/
def pad (bytes : List UInt8) : List UInt8 :=
  let zeros := (119 - bytes.length % 64) % 64
  bytes ++ 0x80 :: List.replicate zeros 0 ++ littleEndian 8 (bytes.length * 8)

/-- Groups of four bytes as words. -/
def wordsOf : List UInt8 → List UInt32
  | a :: b :: c :: d :: rest =>
    (a.toUInt32 ||| (b.toUInt32 <<< 8) ||| (c.toUInt32 <<< 16) ||| (d.toUInt32 <<< 24)) ::
      wordsOf rest
  | _ => []

/-- Sixteen words at a time, for at most `n` blocks. -/
def blocks : Nat → List UInt32 → List (Array UInt32)
  | 0, _ => []
  | n + 1, ws => if ws.isEmpty then [] else (ws.take 16).toArray :: blocks n (ws.drop 16)

/-- A byte as two hexadecimal digits. -/
def hexByte (b : UInt8) : List Char :=
  [Nat.digitChar (b.toNat / 16), Nat.digitChar (b.toNat % 16)]

def ofText (s : String) : String :=
  let words := wordsOf (pad (Text.encode s))
  let t := (blocks words.length words).foldl absorb initial
  String.ofList ((([t.a, t.b, t.c, t.d].flatMap fun w => littleEndian 4 w.toNat)).flatMap hexByte)

/-- The digest of data, which has to be a text that can be stored. -/
def ofValue (v : Value) : Outcome String := do
  let s ← v.text
  if Text.isWhole s then return ofText s else .error .unencodable

end RegexCorpus.Digest
