/-!
# Numbers written in digits

The values of digits and of runs of digits, and whether a decimal number lies within the range of a
64-bit float. Numbers are computed exactly, unless `significant` rounds them.
-/

namespace RubyBinding.Text

/-- The value of a hexadecimal digit. -/
def hexValue? (c : Char) : Option Nat :=
  let n := c.toNat
  if 0x30 ≤ n ∧ n ≤ 0x39 then some (n - 0x30)
  else if 0x41 ≤ n ∧ n ≤ 0x46 then some (n - 0x37)
  else if 0x61 ≤ n ∧ n ≤ 0x66 then some (n - 0x57)
  else none

/-- The number that some digits write in a base; none if one of them is no digit of that base. -/
def ofDigits? (base : Nat) (ds : List Char) : Option Nat :=
  ds.foldlM (fun n d => do
    let v ← hexValue? d
    if v < base then some (n * base + v) else none) 0

/-- The number that a run of decimal digits writes. -/
def digitsValue (ds : List Char) : Nat := ds.foldl (fun n d => n * 10 + (d.toNat - 0x30)) 0

/-- Whether `digits * 10 ^ scale` lies within the range of a 64-bit float: it is below
`2 ^ 1024 - 2 ^ 970`, from where rounding goes to infinity. -/
def isFinite (digits : Nat) (scale : Int) : Bool :=
  let size : Int := (toString digits).length + scale
  if digits = 0 ∨ size < 309 then true
  else if size > 309 then false
  else if scale ≥ 0 then digits * Nat.pow 10 scale.toNat < Nat.pow 2 1024 - Nat.pow 2 970
  else digits < (Nat.pow 2 1024 - Nat.pow 2 970) * Nat.pow 10 (-scale).toNat

/-- The number nearest to `n` that needs no more than so many binary digits in front of its zeros. Of
two that are equally near it is the one whose last such digit is even. -/
def significant (digits n : Nat) : Nat :=
  let unit := Nat.pow 2 (Nat.log2 n + 1 - digits)
  let (units, rest) := (n / unit, n % unit)
  let up := unit < 2 * rest || (2 * rest = unit && units % 2 = 1)
  (if up then units + 1 else units) * unit

end RubyBinding.Text
