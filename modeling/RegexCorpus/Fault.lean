import RegexCorpus.Value.Basic

/-!
# Faults

Why an operation gave no result. A fault is the cause; the few that carry a wording of their own
hold it as a text.
-/

namespace RegexCorpus

/-- The causes for which an operation fails. -/
inductive Fault where
  | requirement
  | missingKey (key : Atom)
  /-- A field was read before it was set, or data of this kind has no such part. -/
  | missingField
  /-- Data of a kind that the operation does not take. -/
  | wrongKind
  /-- Data of the right kind with an unacceptable value. -/
  | badValue (message : String)
  | malformedJson
  /-- A position outside a sequence. -/
  | outOfRange
  | undecodable
  | unencodable
  /-- A number too large for a double. -/
  | overflow
  | divisionByZero
  /-- A result asked for that no branch has set. -/
  | unassigned
  | changedWhileRead
  /-- Too many levels of nesting. -/
  | tooDeep
  /-- A loop that does not end: there never is a result. -/
  | endless
  | noSuchFile
  | isDirectory
  | notDirectory
  | tooManyLinks
  /-- A path with more bytes than the host takes. -/
  | pathTooLong
  /-- A command ended with a code other than zero. -/
  | commandFailed (message : String)
  | checkedCommandFailed
  /-- A command ran out of time. -/
  | commandTimeout
  /-- The user asked to stop. -/
  | interrupted
  | exit (code : Value)
  | exhausted
  | nodeNotFound
  | noPath
  /-- Source text that cannot be parsed. -/
  | unparsable
  /-- A tarball that cannot be opened. -/
  | unreadableArchive
  /-- A failure of the world or of a task, known by its name alone. -/
  | other (name : String)
  deriving Repr, Inhabited

namespace Fault

/-- Requests to stop are not errors of the work at hand: a handler for errors lets them through. -/
def isStop : Fault → Bool
  | interrupted => true
  | exit _ => true
  | _ => false

end Fault

/-- A computation that may fail. -/
abbrev Outcome := Except Fault

def require (p : Bool) : Outcome Unit := if p then .ok () else .error .requirement

end RegexCorpus
