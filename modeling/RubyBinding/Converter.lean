import RubyBinding.Library.Resolution

/-!
# Pointer conversions

Rice converts classes by value. A pointer to a bound class needs a conversion of its own when it
is returned to Ruby, and a pointer to a constant one also when it comes from Ruby. A run notes each
conversion once, under its signature.
-/

namespace RubyBinding

/-- A conversion between Ruby and a pointer to a bound class. -/
inductive Converter where
  /-- From C++ to Ruby. -/
  | toRuby (name : String) (isConst : Bool)
  /-- From Ruby to a pointer to a constant object. -/
  | fromRuby (name : String)
  deriving DecidableEq, Repr, Inhabited

namespace Converter

/-- The pointer type that is converted. -/
def pointer : Converter → Ty
  | toRuby name isConst => .pointer (.named name) isConst
  | fromRuby name => .pointer (.named name) true

/-- The template specialisation that a conversion is. -/
def signature (c : Converter) : String :=
  let spelled := c.pointer.spell
  match c with
  | toRuby _ _ => "to_ruby< " ++ spelled ++ " >"
  | fromRuby _ => "from_ruby< " ++ spelled ++ " >"

/-- The head of the function. -/
def head (c : Converter) : String :=
  match c with
  | toRuby _ _ => "Rice::Object " ++ c.signature ++ "(" ++ c.pointer.spell ++ " const & a)"
  | fromRuby _ => c.pointer.spell ++ " " ++ c.signature ++ "(Rice::Object x)"

/-- The statement that converts. -/
def body : Converter → String
  | toRuby name isConst =>
    let argument := if isConst then "const_cast< " ++ name ++ "* >(a)" else "a"
    "\treturn Rice::Data_Object< " ++ name ++ " >(" ++ argument ++ ", Rice::Data_Type< " ++ name ++
      " >::klass(), 0, 0);"
  | fromRuby name => "\treturn from_ruby< " ++ name ++ "* >(x);"

/-- The lines that announce the function. -/
def prototype (c : Converter) : List String := ["template<>", c.head ++ ";"]

/-- The lines that define the function. -/
def definition (c : Converter) : List String := ["template<>", c.head ++ " \x7b", c.body, "\x7d"]

/-- The conversion that a resolved result type needs. -/
def ofResult? (lib : Library) (t : Ty) : Option Converter :=
  (lib.wrappedClass? t).map fun (name, isConst) => toRuby name isConst

/-- The conversion that a resolved parameter type needs. -/
def ofParam? (lib : Library) (t : Ty) : Option Converter :=
  match lib.wrappedClass? t with
  | some (name, true) => some (fromRuby name)
  | _ => none

/-- Note a conversion. The first one of a signature is kept. -/
def note (noted : List Converter) (c : Converter) : List Converter :=
  if noted.any fun n => n.signature == c.signature then noted else noted ++ [c]

end Converter

end RubyBinding
