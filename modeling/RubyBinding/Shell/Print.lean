import RubyBinding.Shell.Numeral

/-!
# Printing arguments

`echo` and `printf`. A format is read into parts first (`Format.read`), which are then filled with
arguments as often as there are any left (`printf`). Texts are bytes.
-/

namespace RubyBinding.Shell

/-- What a command prints: its text, its reports, and the status that it ends with. -/
structure Printed where
  text : String := ""
  reports : List String := []
  status : Nat := 0
  /-- Whether nothing is printed any more. -/
  isClosed : Bool := false

/-! ## Escapes -/

/-- The character that a letter behind a backslash stands for. -/
def escaped? : Char → Option Char
  | 'a' => some '\x07'
  | 'b' => some '\x08'
  | 'e' => some '\x1b'
  | 'f' => some '\x0c'
  | 'n' => some '\n'
  | 'r' => some '\r'
  | 't' => some '\t'
  | 'v' => some '\x0b'
  | '\\' => some '\\'
  | _ => none

/-- At most so many digits of a number in a base: the byte they write, and the rest. -/
def byteDigits (base n : Nat) : Nat → List Char → Nat × List Char
  | 0, cs => (n % 256, cs)
  | _ + 1, [] => (n % 256, [])
  | count + 1, c :: r =>
    match (Text.hexValue? c).filter (· < base) with
    | some d => byteDigits base (n * base + d) count r
    | none => (n % 256, c :: r)

theorem length_byteDigits_le (base n count : Nat) (cs : List Char) :
    (byteDigits base n count cs).2.length ≤ cs.length := by
  induction count generalizing n cs with
  | zero => simp [byteDigits]
  | succ count ih =>
    cases cs with
    | nil => simp [byteDigits]
    | cons c r =>
      simp only [byteDigits]
      split
      · exact Nat.le_succ_of_le (ih _ r)
      · exact Nat.le_refl _

def isOctal (c : Char) : Bool := '0' ≤ c && c ≤ '7'

/-- The character of an escape, behind its backslash, and the rest. A backslash that begins no escape
stands for itself. `hasHex` says that an `x` may announce hexadecimal digits. -/
def escape (hasHex : Bool) : List Char → Char × List Char
  | [] => ('\\', [])
  | c :: r =>
    match escaped? c with
    | some d => (d, r)
    | none =>
      if isOctal c then
        let (n, rest) := byteDigits 8 0 3 (c :: r)
        (Char.ofNat n, rest)
      else if hasHex && c == 'x' && (r.head?.bind Text.hexValue?).isSome then
        let (n, rest) := byteDigits 16 0 2 r
        (Char.ofNat n, rest)
      else ('\\', c :: r)

theorem length_escape_le (hasHex : Bool) (cs : List Char) :
    (escape hasHex cs).2.length ≤ cs.length := by
  cases cs with
  | nil => simp [escape]
  | cons c r =>
    simp only [escape]
    split
    · exact Nat.le_succ _
    · split
      · exact length_byteDigits_le 8 0 3 (c :: r)
      · split
        · exact Nat.le_succ_of_le (length_byteDigits_le 16 0 2 r)
        · exact Nat.le_refl _

/-- The rest behind a zero that only announces octal digits. -/
def dropAnnouncement : List Char → List Char
  | '0' :: d :: r => if isOctal d then d :: r else '0' :: d :: r
  | cs => cs

theorem length_dropAnnouncement_le (cs : List Char) :
    (dropAnnouncement cs).length ≤ cs.length := by
  unfold dropAnnouncement
  split
  · split <;> simp
  · exact Nat.le_refl _

/-- A text with its escapes replaced, up to `\c`, and whether there was one. -/
def unescape (hasHex : Bool) : List Char → List Char × Bool
  | [] => ([], false)
  | '\\' :: 'c' :: _ => ([], true)
  | '\\' :: r =>
    let found := escape hasHex (dropAnnouncement r)
    let (text, isClosed) := unescape hasHex found.2
    (found.1 :: text, isClosed)
  | c :: r =>
    let (text, isClosed) := unescape hasHex r
    (c :: text, isClosed)
termination_by cs => cs.length
decreasing_by
  · exact Nat.lt_succ_of_le
      (Nat.le_trans (length_escape_le hasHex _) (length_dropAnnouncement_le _))
  · exact Nat.lt_succ_self _

/-- Arguments with blanks between them. -/
def spaced (arguments : List String) : List Char :=
  (String.intercalate " " arguments).toList

/-- Arguments on a line with their escapes replaced. A first argument `-n` leaves the line open. -/
def echo (arguments : List String) : List Char :=
  let (arguments, lineEnd) := match arguments with
    | "-n" :: rest => (rest, [])
    | _ => (arguments, ['\n'])
  let (text, isClosed) := unescape false (spaced arguments)
  if isClosed then text else text ++ lineEnd

/-- What letters behind a hyphen ask of `echo`: escapes to be replaced or not, and an open line. None if
they are no such letters. -/
def echoLetters? (sofar : Bool × Bool) : List Char → Option (Bool × Bool)
  | [] => some sofar
  | 'e' :: r => echoLetters? (true, sofar.2) r
  | 'E' :: r => echoLetters? (false, sofar.2) r
  | 'n' :: r => echoLetters? (sofar.1, true) r
  | _ => none

/-- Arguments on a line, behind options that say whether escapes are replaced and whether the line is
left open. -/
def echoWithOptions (sofar : Bool × Bool) : List String → List Char
  | [] => if sofar.2 then [] else ['\n']
  | a :: rest =>
    let letters := match a.toList with
      | '-' :: c :: r => echoLetters? sofar (c :: r)
      | _ => none
    match letters with
    | some asked => echoWithOptions asked rest
    | none =>
      let text := spaced (a :: rest)
      let (text, isClosed) := if sofar.1 then unescape true text else (text, false)
      if isClosed || sofar.2 then text else text ++ ['\n']

/-! ## Formats -/

/-- A width or a precision. -/
inductive Size where
  | absent
  | fixed (n : Nat)
  /-- As the next argument says. -/
  | argument
  deriving DecidableEq, Repr

structure Directive where
  /-- The directive as it is written. -/
  text : List Char
  flags : List Char
  width : Size
  precision : Size
  kind : Char
  deriving DecidableEq, Repr

inductive FormatPart where
  | char (c : Char)
  | directive (d : Directive)
  /-- The end of the format where the kind of a directive is due. -/
  | unfinished
  deriving DecidableEq, Repr

namespace Format

/-- The size at the beginning of a text, and the rest. -/
def size (missing : Size) : List Char → Size × List Char
  | '*' :: r => (.argument, r)
  | cs =>
    let ds := cs.takeWhile Char.isDigit
    (if ds.isEmpty then missing else .fixed (Text.digitsValue ds), cs.dropWhile Char.isDigit)

/-- The directive behind a percent sign, and the rest. -/
def directive (cs : List Char) : FormatPart × List Char :=
  let isFlag := fun (c : Char) => c == '#' || c == '-' || c == '+' || c == ' ' || c == '0'
  let flags := cs.takeWhile isFlag
  let (width, rest) := size .absent (cs.dropWhile isFlag)
  let (precision, rest) := match rest with
    | '.' :: r => size (.fixed 0) r
    | _ => (.absent, rest)
  match rest with
  | [] => (.unfinished, [])
  | kind :: r =>
    (.directive ⟨'%' :: cs.take (cs.length - r.length), flags, width, precision, kind⟩, r)

/-- The parts of a format; `fuel` bounds their number. -/
def parts : Nat → List Char → List FormatPart
  | 0, _ => []
  | _ + 1, [] => []
  | fuel + 1, '\\' :: r =>
    let (c, rest) := escape false r
    .char c :: parts fuel rest
  | fuel + 1, '%' :: '%' :: r => .char '%' :: parts fuel r
  | fuel + 1, '%' :: r =>
    let (part, rest) := directive r
    part :: parts fuel rest
  | fuel + 1, c :: r => .char c :: parts fuel r

/-- Read a format. -/
def read (format : String) : List FormatPart := parts (format.length + 1) format.toList

end Format

/-! ## Filling a format -/

/-- What has been printed, and the arguments that are left. -/
abbrev Filling := StateM (Printed × List String)

namespace Filling

/-- The next argument. -/
def next? : Filling (Option String) := modifyGet fun (p, arguments) =>
  (arguments.head?, p, arguments.tail)

def put (text : List Char) : Filling Unit := modify fun (p, arguments) =>
  ({ p with text := p.text ++ String.ofList text }, arguments)

/-- Print nothing any more. -/
def close : Filling Unit := modify fun (p, arguments) => ({ p with isClosed := true }, arguments)

def report (status : Nat) (text : String) : Filling Unit := modify fun (p, arguments) =>
  ({ p with reports := p.reports ++ [text], status }, arguments)

/-- The next argument as an integer. What is not an integer, or not only, is reported. -/
def nextInteger (isSigned : Bool) : Filling Int := do
  match ← next? with
  | none => return 0
  | some text =>
    match text.toList with
    | '"' :: r => return (r.headD '\x00').toNat
    | '\'' :: r => return (r.headD '\x00').toNat
    | cs =>
      match Numeral.integer? Numeral.literal? cs with
      | none =>
        if !cs.isEmpty then report 1 (text ++ ": expected numeric value")
        return 0
      | some (n, rest) =>
        if !rest.isEmpty then report 1 (text ++ ": not completely converted")
        else if (if isSigned then !Numeral.isInRange n else Nat.pow 2 64 ≤ n.natAbs) then
          report 1 (text ++ ": Numerical result out of range")
        return if isSigned then Numeral.clamp n
          else if Nat.pow 2 64 ≤ n.natAbs then Int.pow 2 64 - 1 else n

/-- The number that a size stands for, if any. -/
def measure : Size → Filling (Option Int)
  | .absent => return none
  | .fixed n => return some n
  | .argument => do return some (← nextInteger true)

/-- Put blanks in front of a text, or behind it, until it is so wide. -/
def pad (isLeft : Bool) (width : Nat) (text : List Char) : List Char :=
  let blanks := List.replicate (width - text.length) ' '
  if isLeft then text ++ blanks else blanks ++ text

/-- The digits of a number, without and with the mark of its base. -/
def inBase (kind : Char) (n : Nat) : List Char × List Char :=
  match kind with
  | 'o' => (Nat.toDigits 8 n, ['0'])
  | 'x' => (Nat.toDigits 16 n, ['0', 'x'])
  | 'X' => ((Nat.toDigits 16 n).map Char.toUpper, ['0', 'X'])
  | _ => (Nat.toDigits 10 n, [])

/-- An integer as a directive shows it. -/
def shownInteger (d : Directive) (width : Nat) (isLeft : Bool) (precision : Option Nat) (n : Int) :
    List Char :=
  let has := fun (c : Char) => d.flags.contains c
  let isSigned := d.kind == 'd' || d.kind == 'i'
  let size := if isSigned then n.natAbs else (n % Int.pow 2 64).toNat
  let (ds, mark) := inBase d.kind size
  let ds := if size = 0 && precision = some 0 then [] else ds
  let ds := List.replicate (precision.getD 0 - ds.length) '0' ++ ds
  let mark :=
    if !has '#' then []
    else if d.kind == 'o' then if ds.head? = some '0' then [] else mark
    else if size = 0 then []
    else mark
  let sign :=
    if !isSigned then mark
    else if n < 0 then ['-']
    else if has '+' then ['+']
    else if has ' ' then [' ']
    else []
  let zeros :=
    if has '0' && !isLeft && precision.isNone then
      List.replicate (width - (sign.length + ds.length)) '0'
    else []
  pad isLeft width (sign ++ zeros ++ ds)

/-- Fill in a directive. -/
def directive (d : Directive) : Filling Unit := do
  let width ← measure d.width
  let precision ← measure d.precision
  let isLeft := d.flags.contains '-' || width.any (· < 0)
  let width := (width.getD 0).natAbs
  let precision := (precision.filter (0 ≤ ·)).map Int.toNat
  let cut := fun (text : List Char) => match precision with
    | some n => text.take n
    | none => text
  match d.kind with
  | 's' => put (pad isLeft width (cut ((← next?).getD "").toList))
  | 'b' =>
    let (text, isClosed) := unescape false ((← next?).getD "").toList
    put (pad isLeft width (cut text))
    if isClosed then close
  | 'c' => put (pad isLeft width [((← next?).getD "").toList.headD '\x00'])
  | kind =>
    if kind == 'd' || kind == 'i' then
      put (shownInteger d width isLeft precision (← nextInteger true))
    else if kind == 'o' || kind == 'u' || kind == 'x' || kind == 'X' then
      put (shownInteger d width isLeft precision (← nextInteger false))
    else
      report 2 (String.ofList d.text ++ ": invalid directive")
      close

/-- Fill in parts of a format, in order. -/
def parts : List FormatPart → Filling Unit
  | [] => return
  | p :: ps => do
    match p with
    | .char c => put [c]
    | .directive d => directive d
    | .unfinished =>
      report 2 "missing format character"
      close
    if (← get).1.isClosed then return
    parts ps

/-- Fill in a format, and again while arguments are left. -/
def rounds (ps : List FormatPart) (start : Nat) : Nat → Filling Unit
  | 0 => return
  | fuel + 1 => do
    parts ps
    let (p, left) ← get
    if p.isClosed || left.isEmpty || left.length = start then return
    rounds ps start fuel

end Filling

/-- A format filled with arguments. -/
def printf (format : String) (arguments : List String) : Printed :=
  (Filling.rounds (Format.read format) arguments.length (arguments.length + 1)
    |>.run ({}, arguments)).2.1

end RubyBinding.Shell
