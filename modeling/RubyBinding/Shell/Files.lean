/-!
# The files that commands run among

What commands need of a place with files. Operations say whether they succeeded; why one failed is of
no interest.
-/

namespace RubyBinding.Shell

/-- What there is at a path. -/
inductive FileKind where
  | file
  | directory
  deriving DecidableEq, Repr

/-- A place with files. -/
structure Files (m : Type → Type) where
  /-- The text of a file. -/
  readText : String → m (Option String)
  /-- Make a directory and all those above it; those that are there already stay. -/
  makeDirs : String → m Bool
  /-- Write a file, in place of an older one if there is one. -/
  writeText : String → String → m Bool
  /-- What there is at a path, if there is anything. -/
  kindOf : String → m (Option FileKind)
  /-- The names in a directory, as far as the place tells them. -/
  entries : String → m (List String)
  /-- Remove a file or a directory with nothing in it. -/
  remove : String → m Bool
  /-- The path of the directory that other paths start from. -/
  workingDir : m String

end RubyBinding.Shell
