import RubyBinding.Text.Blank

/-!
# Names in reports of tools

A tool quotes a name in a report if a shell would not read it as one plain word. What cannot be printed
is written by escapes, outside the other quotes.
-/

namespace RubyBinding.Shell.Quote

/-- Whether a character has a meaning in a script wherever it stands. -/
def isSpecial (c : Char) : Bool :=
  " !\"$&'()*:;<=>?[\\^`|".toList.contains c

def isPrintable (c : Char) : Bool := ' ' ≤ c && c ≤ '~'

/-- Whether a name cannot stand without quotes. -/
def isNeeded (cs : List Char) : Bool :=
  match cs with
  | [] => true
  | ['\x7b'] => true
  | ['\x7d'] => true
  | c :: _ => c == '#' || c == '~' || cs.any fun d => isSpecial d || !isPrintable d

/-- Whether a name can stand between double quotes. -/
def fitsDouble (cs : List Char) : Bool :=
  cs.all fun c => isPrintable c && (!isSpecial c || c == ' ' || c == '\'' || c == ':')

/-- The escape of a character that cannot be printed. -/
def escape (c : Char) : List Char :=
  match c with
  | '\t' => ['\\', 't']
  | '\n' => ['\\', 'n']
  | '\r' => ['\\', 'r']
  | '\x07' => ['\\', 'a']
  | '\x08' => ['\\', 'b']
  | '\x0b' => ['\\', 'v']
  | '\x0c' => ['\\', 'f']
  | _ =>
    let n := c.toNat
    '\\' :: [n / 64 % 8, n / 8 % 8, n % 8].map fun d => Char.ofNat (0x30 + d)

/-- The characters of a name between single quotes; `isEscaping` says that those before are escapes. -/
def single (isEscaping : Bool) : List Char → List Char
  | [] => ['\'']
  | c :: cs =>
    if isPrintable c then
      (if isEscaping then ['\'', '\''] else []) ++
        (if c == '\'' then ['\'', '\\', '\'', '\''] else [c]) ++ single false cs
    else (if isEscaping then [] else ['\'', '$', '\'']) ++ escape c ++ single true cs

/-- A name as reports show it. -/
def name (s : String) : String :=
  let cs := s.toList
  if !isNeeded cs then s
  else if cs.contains '\'' && fitsDouble cs then "\"" ++ s ++ "\""
  else String.ofList ('\'' :: single false cs)

end RubyBinding.Shell.Quote
