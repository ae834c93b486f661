import RegexCorpus.Fault

/-!
# Registries and their languages

Modules are published in registries, each serving one or two languages.
-/

namespace RegexCorpus.Registry

def languages : List (String × String) := [
  ("npm", "JavaScript"), ("crates.io", "Rust"), ("packagist", "PHP"), ("pypi", "Python"),
  ("rubygems", "Ruby"), ("cpan", "Perl"), ("maven", "Java"), ("godoc", "Go")]

def language (registry : Atom) : Outcome String :=
  match registry with
  | .str s => match languages.find? (·.1 == s) with
    | some (_, l) => .ok l
    | none => .error (.missingKey registry)
  | _ => .error (.missingKey registry)

def sourceLanguages : List (String × List String) := [
  ("npm", ["javascript", "typescript"]), ("maven", ["java"]), ("packagist", ["php"]),
  ("pypi", ["python"]), ("rubygems", ["ruby"]), ("godoc", ["go"]), ("cpan", ["perl"]),
  ("crates.io", ["rust"])]

def isKnown (registry : Atom) : Bool := sourceLanguages.any fun e => registry.same (.str e.1)

def languagesOf (registry : String) : Outcome (List String) :=
  match sourceLanguages.find? (·.1 == registry) with
  | some (_, ls) => .ok ls
  | none => .error (.missingKey (.str registry))

def allLanguages : List String := sourceLanguages.flatMap (·.2)

end RegexCorpus.Registry
