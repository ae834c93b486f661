import RegexCorpus.Host.Files
import RegexCorpus.Project.Basic

/-!
# Files of projects

A file holds one project a line. Lines from which no project can be read are passed over.
-/

namespace RegexCorpus
namespace Project

def ofLine? (line : String) : Option Project := (ofLine line).toOption

/-- The projects of lines; blank lines and lines without a project do not count. -/
def ofLines (lines : List String) : List Project :=
  ((lines.map Text.trim).filter (!·.isEmpty)).filterMap ofLine?

def load (path : String) : Act (List Project) := do return ofLines (← Act.readLines path)

end Project

end RegexCorpus
