/-!
# Texts as bytes

Commands work on bytes. Here a byte is a character below 256, so that a text of bytes is a text as
well. `toBytes` gives the bytes that write a text in UTF-8, `ofBytes?` reads them back, and
`ofBytesLossy` puts a replacement character for each stretch that is no UTF-8.
-/

namespace RubyBinding.Text

/-- A continuation byte with the six lowest bits of a number. -/
def continuation (n : Nat) : Char := Char.ofNat (0x80 + n % 64)

/-- The bytes of a character. -/
def bytesOf (c : Char) : List Char :=
  let n := c.toNat
  if n < 0x80 then [c]
  else if n < 0x800 then [Char.ofNat (0xC0 + n / 64), continuation n]
  else if n < 0x10000 then
    [Char.ofNat (0xE0 + n / 4096), continuation (n / 64), continuation n]
  else
    [Char.ofNat (0xF0 + n / 262144), continuation (n / 4096), continuation (n / 64), continuation n]

/-- The bytes of a text. -/
def toBytes (s : String) : String := String.ofList (s.toList.flatMap bytesOf)

/-- For a byte that begins a character of several: how many follow, and between which bounds the
first of them is. -/
def followers? (lead : Nat) : Option (Nat × Nat × Nat) :=
  if lead < 0xC2 then none
  else if lead < 0xE0 then some (1, 0x80, 0xBF)
  else if lead = 0xE0 then some (2, 0xA0, 0xBF)
  else if lead = 0xED then some (2, 0x80, 0x9F)
  else if lead < 0xF0 then some (2, 0x80, 0xBF)
  else if lead = 0xF0 then some (3, 0x90, 0xBF)
  else if lead < 0xF4 then some (3, 0x80, 0xBF)
  else if lead = 0xF4 then some (3, 0x80, 0x8F)
  else none

/-- What is left to read of a character: the number so far, how many bytes follow, and between which
bounds the next is. -/
structure Pending where
  number : Nat
  left : Nat
  low : Nat
  high : Nat

/-- The characters that bytes write; none stands for a stretch that writes no character. -/
def decode : Option Pending → List Char → List (Option Char)
  | none, [] => []
  | some _, [] => [none]
  | pending, c :: cs =>
    let n := c.toNat
    let fresh : Option Pending × List (Option Char) :=
      if n < 0x80 then (none, [some c])
      else match followers? n with
        | some (left, low, high) =>
          (some ⟨n % (if left = 1 then 32 else if left = 2 then 16 else 8), left, low, high⟩, [])
        | none => (none, [none])
    match pending with
    | none => fresh.2 ++ decode fresh.1 cs
    | some p =>
      if p.low ≤ n && n ≤ p.high then
        let number := p.number * 64 + n % 64
        if p.left ≤ 1 then some (Char.ofNat number) :: decode none cs
        else decode (some ⟨number, p.left - 1, 0x80, 0xBF⟩) cs
      else none :: (fresh.2 ++ decode fresh.1 cs)

/-- The text that bytes write; none if they are no UTF-8. -/
def ofBytes? (s : String) : Option String :=
  ((decode none s.toList).mapM id).map String.ofList

/-- The text that bytes write, with a replacement character for each stretch that writes none. -/
def ofBytesLossy (s : String) : String :=
  String.ofList ((decode none s.toList).map fun c => c.getD '\uFFFD')

end RubyBinding.Text
