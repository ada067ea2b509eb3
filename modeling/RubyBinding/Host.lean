import RubyBinding.Header.Reading
import RubyBinding.Outcome

/-!
# Hosts

A run reads headers and writes files somewhere, on a disk or in a tree of files that is itself a
value; it runs the command of a project, and it leaves it to a grammar to divide a header into its
parts. A `Host` is what it needs of all this and does not do itself. Operations say whether they
succeeded; why one failed is of no interest.
-/

namespace RubyBinding

/-- What a run finds around it. -/
structure Host (m : Type → Type) where
  /-- The text of a file. -/
  readText : String → m (Option String)
  /-- Make a directory and all those above it; those that are there already stay. -/
  makeDirs : String → m Bool
  /-- Write a file, in place of an older one if there is one. -/
  writeText : String → String → m Bool
  /-- Run a command with some arguments to its end, with nothing to read; none if it cannot be
  started. -/
  runCommand : String → List String → m (Option Outcome)
  /-- Divide the text of a header by the grammar. Where it does not follow the grammar, the rest of
  it is divided all the same. -/
  divide : String → Header.Parsed

end RubyBinding
