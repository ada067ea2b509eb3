import RubyBinding.Text.Blank

/-!
# Numbers of enumerators

The number that an initialiser spells, where it is a plain integer: digits, after `0x` hexadecimal
ones, with a sign in front and the suffixes `u` and `l` behind. Any other expression has no number
here, nor has an integer beyond 64 bits.
-/

namespace RubyBinding.Header

/-- The value of a digit in a base up to sixteen. -/
def digitValue? (base : Nat) (c : Char) : Option Nat :=
  let n := c.toNat
  let value :=
    if 0x30 ≤ n ∧ n ≤ 0x39 then n - 0x30
    else if 0x41 ≤ n ∧ n ≤ 0x5A then n - 0x37
    else if 0x61 ≤ n ∧ n ≤ 0x7A then n - 0x57
    else base
  if value < base then some value else none

/-- The number that digits write after a number read so far. -/
def natural? (base : Nat) (n : Nat) : List Char → Option Nat
  | [] => some n
  | c :: r =>
    match digitValue? base c with
    | some d => natural? base (n * base + d) r
    | none => none

/-- The number of a text of one or more digits. -/
def digits? (base : Nat) : List Char → Option Nat
  | [] => none
  | c :: r => natural? base 0 (c :: r)

/-- A 64-bit integer with an optional sign. -/
def signed? (base : Nat) (text : List Char) : Option Int :=
  let value : Option Int := match text with
    | '-' :: r => (digits? base r).map fun n : Nat => -(n : Int)
    | '+' :: r => (digits? base r).map Int.ofNat
    | _ => (digits? base text).map Int.ofNat
  value.filter fun n => -Int.pow 2 63 ≤ n ∧ n < Int.pow 2 63

/-- The suffixes of integer literals. -/
def isSuffix (c : Char) : Bool := c == 'u' || c == 'U' || c == 'l' || c == 'L'

theorem length_dropEndWhile_le (p : Char → Bool) (cs : List Char) :
    (Text.dropEndWhile p cs).length ≤ cs.length := by
  have := Text.length_dropWhile_le p cs.reverse
  simpa [Text.dropEndWhile] using this

theorem length_trim_le (cs : List Char) : (Text.trim cs).length ≤ cs.length :=
  Nat.le_trans (length_dropEndWhile_le _ _) (Text.length_dropWhile_le _ _)

/-- An initialiser without the blanks around it and the suffixes behind it. -/
def bare (text : List Char) : List Char := Text.dropEndWhile isSuffix (Text.trim text)

theorem length_bare_le (text : List Char) : (bare text).length ≤ text.length :=
  Nat.le_trans (length_dropEndWhile_le _ _) (length_trim_le _)

/-- The negative of an integer of 64 bits. The least one has none, and stays as it is. -/
def negative (n : Int) : Int := if n = -Int.pow 2 63 then n else -n

/-- The integer that an initialiser spells. -/
def integer? (text : List Char) : Option Int :=
  match _h : bare text with
  | '0' :: 'x' :: digits => signed? 16 digits
  | '0' :: 'X' :: digits => signed? 16 digits
  | '-' :: rest => (integer? rest).map negative
  | plain => signed? 10 plain
termination_by text.length
decreasing_by
  have hle := length_bare_le text
  rw [_h, List.length_cons] at hle
  omega

end RubyBinding.Header
