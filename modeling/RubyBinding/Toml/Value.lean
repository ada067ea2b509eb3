/-!
# TOML values

A value of a TOML document. Fractional numbers and points in time are kept as they were written,
because nothing here computes with them.
-/

namespace RubyBinding.Toml

/-- A TOML value. -/
inductive Value where
  | string (s : String)
  | integer (n : Int)
  | decimal (text : String)
  | boolean (b : Bool)
  | moment (text : String)
  | array (items : List Value)
  | table (members : List (String × Value))
  deriving Repr, Inhabited, BEq

end RubyBinding.Toml
