import RubyBinding.Ty.Spelling
import RubyBinding.Decl

/-!
# C++ definitions

What registration statements bind has to be defined in front of them: functions that forward a call,
and *directors*, subclasses that ask Ruby first when one of their virtual methods is called.
Both are kept as what they consist of and become lines of text at the very end.
-/

namespace RubyBinding.Code

/-- A declared parameter. -/
structure Slot where
  ty : Ty
  name : String
  deriving Repr, Inhabited, BEq

def Slot.text (s : Slot) : String := s.ty.declare s.name

/-- Texts separated by commas. -/
def commaList (texts : List String) : String := String.intercalate ", " texts

/-- A parameter list, without its brackets. -/
def slotList (slots : List Slot) : String := commaList (slots.map Slot.text)

/-- The receiver of a function that has none. -/
def Slot.anyReceiver : Slot := ⟨.named "Rice::Object", "self"⟩

/-- The receiver of a function that is called on an object of a class. -/
def Slot.receiver (cpp : String) : Slot := ⟨.pointer (.named cpp) false, "self"⟩

/-- The keyword in front of a forwarded call. -/
def returnPart (result : Ty) : String := if result.isVoid then "" else "return "

/-! ## Functions -/

/-- What a generated function does. -/
inductive Body where
  /-- Call a C++ function or method. -/
  | forward (target : String) (arguments : List String)
  /-- Return a variable. -/
  | get (source : String)
  /-- Assign the parameter `value` to a variable. -/
  | set (target : String)
  /-- Call a Ruby block with all parameters. -/
  | callBlock (block : String)
  /-- Keep the Ruby block at hand, then pass a function that calls it. -/
  | takeBlock (block target yielder : String) (returnsNil : Bool)
  deriving Repr, Inhabited, BEq

/-- A generated function. -/
structure Wrapper where
  /-- The declaration that it was made for. -/
  source : DeclId
  result : Ty
  name : String
  slots : List Slot
  body : Body
  deriving Repr, Inhabited, BEq

/-- The call of a Ruby block with converted arguments. -/
def blockCall (block : String) (arguments : List String) : String :=
  "rb_funcall(" ++ block ++ ", rb_intern(\"call\"), " ++ toString arguments.length ++
    String.join (arguments.map fun a => ", to_ruby(" ++ a ++ ").value()") ++ ")"

/-- The statements of a function. -/
def Wrapper.statements (w : Wrapper) : List String :=
  match w.body with
  | .forward target arguments =>
    ["\t" ++ returnPart w.result ++ target ++ "(" ++ commaList arguments ++ ");"]
  | .get source => ["\treturn " ++ source ++ ";"]
  | .set target => ["\t" ++ target ++ " = value;"]
  | .callBlock block =>
    let call := blockCall block (w.slots.map Slot.name)
    if w.result.isVoid then ["\t" ++ call ++ ";"]
    else ["\treturn from_ruby< " ++ w.result.spell ++ " >(" ++ call ++ ");"]
  | .takeBlock block target yielder returnsNil =>
    ["\t" ++ block ++ " = rb_block_proc();", "\t" ++ target ++ "(&" ++ yielder ++ ");"] ++
      if returnsNil then ["\treturn Qnil;"] else []

def Wrapper.lines (w : Wrapper) : List String :=
  [w.result.spell ++ " " ++ w.name ++ "(" ++ slotList w.slots ++ ") \x7b"] ++ w.statements ++
    ["\x7d"]

/-! ## Directors -/

/-- How the C++ implementation of an overridden method is reached. -/
inductive Fallback where
  /-- Not at all: outside the class it must not be called. -/
  | hidden
  /-- A member that raises, since there is nothing to call. -/
  | raises (name : String)
  /-- A member that calls the implementation of the class. -/
  | calls (name : String)
  deriving DecidableEq, Repr, Inhabited

/-- An overridden virtual method. -/
structure Override where
  result : Ty
  name : String
  slots : List Slot
  isConst : Bool
  /-- The Ruby method that is asked. -/
  ruby : String
  fallback : Fallback
  deriving Repr, Inhabited, BEq

/-- A class that passes virtual calls on to Ruby. -/
structure Director where
  name : String
  /-- The class it derives from. -/
  cpp : String
  /-- Parameters of the constructor, if the class can be constructed. -/
  ctor : Option (List Slot)
  overrides : List Override
  deriving Repr, Inhabited, BEq

namespace Override

/-- The head of a member with the parameters of the overridden method. -/
def head (o : Override) (name : String) : String :=
  o.result.spell ++ " " ++ name ++ "(" ++ slotList o.slots ++ ")" ++
    (if o.isConst then " const" else "") ++ " \x7b"

/-- The names of the parameters, which are passed on. -/
def arguments (o : Override) : List String := o.slots.map Slot.name

/-- The member that asks Ruby. -/
def dispatch (o : Override) : List String :=
  let call := "getSelf().call(" ++ commaList (("\"" ++ o.ruby ++ "\"") :: o.arguments) ++ ")"
  let statement :=
    if o.result.isVoid then "\t\t" ++ call ++ ";"
    else "\t\treturn from_ruby< " ++ o.result.spell ++ " >( " ++ call ++ " );"
  ["\tvirtual " ++ o.head o.name, statement, "\t\x7d"]

/-- The member that reaches the implementation in a class. -/
def implementation (o : Override) (cpp : String) : List String :=
  match o.fallback with
  | .hidden => []
  | .raises name => ["", "\t" ++ o.head name, "\t\traisePureVirtual();", "\t\x7d"]
  | .calls name =>
    ["", "\t" ++ o.head name,
      "\t\t" ++ returnPart o.result ++ cpp ++ "::" ++ o.name ++ "(" ++ commaList o.arguments ++ ");",
      "\t\x7d"]

end Override

namespace Director

/-- The constructor, which keeps the Ruby object. -/
def ctorLines (d : Director) : List String :=
  match d.ctor with
  | none => []
  | some slots =>
    ["\t" ++ d.name ++ "(" ++ slotList (.anyReceiver :: slots) ++ ") : " ++ d.cpp ++ "(" ++
      commaList (slots.map Slot.name) ++ "), Rice::Director(self) \x7b \x7d"]

def lines (d : Director) : List String :=
  ["class " ++ d.name ++ " : public " ++ d.cpp ++ ", public Rice::Director \x7b", "public:"] ++
    d.ctorLines ++
    (d.overrides.flatMap fun o => "" :: (o.dispatch ++ o.implementation d.cpp)) ++ ["\x7d;"]

end Director

/-! ## Definitions -/

/-- A definition in front of the registration statements. -/
inductive Definition where
  /-- Hand-written code. -/
  | custom (line : String)
  /-- The variable that holds the block a function was called with. -/
  | block (name : String)
  | wrapper (w : Wrapper)
  | director (d : Director)
  deriving Repr, Inhabited, BEq

def Definition.lines : Definition → List String
  | custom line => [line]
  | block name => ["VALUE " ++ name ++ ";"]
  | wrapper w => w.lines
  | director d => d.lines

end RubyBinding.Code
