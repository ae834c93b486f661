import RegexCorpus.Pattern.Brace
import RegexCorpus.Pattern.Group
import RegexCorpus.Pattern.InlineFlag
import RegexCorpus.Pattern.Quote

/-!
# Patterns for C#

The measuring tools take patterns in the notation of C#. The patterns of other languages are brought
close to it in four steps: quotes, named groups, braces, and the inline Unicode flag, in this order.
-/

namespace RegexCorpus.Pattern

/-- The pattern in the notation of C#, with `alternative` in place of the Unicode flag. -/
def toCSharp (alternative p : String) : String :=
  replaceUnicodeFlag alternative (escapeBraces (renameGroups (expandQuotes p)))

/-- A pattern given as data in the notation of C#, the only target there is. -/
def toTarget (alternative target p : Value) : Outcome String := do
  require (target.same (.str "C#"))
  match p with
  | .str s => replaceUnicodeFlagBy alternative (escapeBraces (renameGroups (expandQuotes s)))
  | _ => .error .wrongKind

end RegexCorpus.Pattern
