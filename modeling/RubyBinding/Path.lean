import RubyBinding.Text.Blank

/-!
# Paths

Paths are texts with `/` between their components. Nothing is looked up and nothing is normalised:
`join` and `parent` work on the text. Two texts can still be one path (`sameAs`): repeated slashes,
a dot between slashes and a slash at the end make no difference.
-/

namespace RubyBinding.Path

/-- The pieces of a text between each slash. -/
def pieces : List Char → List (List Char)
  | [] => [[]]
  | '/' :: r => [] :: pieces r
  | c :: r => Text.extendHead c (pieces r)

def isAbsolute (path : String) : Bool := (Text.after? ['/'] path.toList).isSome

/-- The components that tell paths apart. A slash at the start is a component of its own, and so is
a dot at the start of a relative path. -/
def components (path : String) : List (List Char) :=
  let named := fun ps => (ps : List (List Char)).filter fun p => p != [] && p != ['.']
  match pieces path.toList with
  | [] :: rest => if rest.isEmpty then [] else ['/'] :: named rest
  | ['.'] :: rest => ['.'] :: named rest
  | ps => named ps

/-- Whether two texts are one path. -/
def sameAs (p q : String) : Bool := components p == components q

/-- A path below a directory. An absolute path stays what it is. -/
def join (dir path : String) : String :=
  if isAbsolute path || dir.isEmpty then path
  else if (Text.before? ['/'] dir.toList).isSome then dir ++ path
  else dir ++ "/" ++ path

/-- A text, last character first, without slashes and lone dots at its end. A slash that is all
there is stays. -/
def trimTail : List Char → List Char
  | '/' :: r => if r.isEmpty then ['/'] else trimTail r
  | '.' :: '/' :: r => trimTail ('/' :: r)
  | cs => cs

/-- The path of the directory that a path leads into; empty for the current one. -/
def parent (path : String) : String :=
  let others := (trimTail path.toList.reverse).dropWhile (· != '/')
  String.ofList (trimTail others).reverse

end RubyBinding.Path
