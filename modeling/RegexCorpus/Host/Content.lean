import RegexCorpus.Json.Reader
import RegexCorpus.Text.Utf8

/-!
# The contents of files

A file holds a text, or bytes that may not be one. Reading it as a text makes every line end a line
feed.
-/

namespace RegexCorpus

/-- What a file holds: a text, or bytes that need not be one. -/
inductive Content where
  | text (s : String)
  | raw (bytes : List UInt8)
  deriving DecidableEq, Repr, Inhabited

namespace Content

/-- The bytes written by pairs of hexadecimal digits. -/
def bytesOfHex : List Char → List UInt8
  | a :: b :: rest => match Json.hexValue? a, Json.hexValue? b with
    | some m, some n => UInt8.ofNat (16 * m + n) :: bytesOfHex rest
    | _, _ => []
  | _ => []

/-- A file of bytes written in hexadecimal digits. -/
def ofHex (s : String) : Content := raw (bytesOfHex s.toList)

def bytes : Content → List UInt8
  | text s => Text.encode s
  | raw bs => bs

/-- The text of a file as it stands, with replacements for what is no text. -/
def display : Content → String
  | text s => s
  | raw bs => Text.decodeLossy bs

/-- A text put at the end of a file. -/
def append : Content → String → Content
  | text s, more => text (s ++ more)
  | raw bs, more => raw (bs ++ Text.encode more)

/-- The text of a file, read as a whole. -/
def read : Content → Outcome String
  | text s => .ok (String.ofList (Text.unifyLineEnds s.toList))
  | raw bs => match Text.decode? bs with
    | some s => .ok (String.ofList (Text.unifyLineEnds s.toList))
    | none => .error .undecodable

/-- The text of a file with replacements for what is no text, every line end a line feed. -/
def readLossy (c : Content) : String := String.ofList (Text.unifyLineEnds c.display.toList)

/-! ### Line by line -/

/-- The bytes that are read at once. -/
def blockSize : Nat := 8192

/-- The bytes of the blocks before the one in which a fault is found. A character that breaks off at
the end of the file is found when nothing more can be read. -/
def readable (bs : List UInt8) (fault : Nat) : List UInt8 :=
  if fault == bs.length then bs else bs.take (fault / blockSize * blockSize)

/-- The lines of a text that have an end for certain: a carriage return at the end of the text may be
half of one. -/
def endedLines (cs : List Char) : List (List Char) :=
  let known := if cs.getLast? == some '\r' then cs.dropLast else cs
  (Text.fullLines (Text.unifyLineEnds known)).filter fun line => line.getLast? == some '\n'

/-- The lines of a file with their line feeds, and the fault that ends reading, if there is one. -/
def lines : Content → List String × Option Fault
  | text s => ((Text.fullLines (Text.unifyLineEnds s.toList)).map String.ofList, none)
  | raw bs => match Text.fault? bs with
    | none =>
      ((Text.fullLines (Text.unifyLineEnds (Text.decodeWhole bs))).map String.ofList, none)
    | some n => ((endedLines (Text.decodeWhole (readable bs n))).map String.ofList, some .undecodable)

end Content
end RegexCorpus
