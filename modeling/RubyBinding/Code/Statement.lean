import RubyBinding.Ty.Spelling

/-!
# Registration statements

The body of a registration function is a list of statements. Those that define something in Ruby are
kept as what they say (the variable they set, the class or module they stand under, the C++ name
behind a Ruby name) and become text at the very end. A *handle* is the C++ variable that holds a
Ruby class, module or enumeration.
-/

namespace RubyBinding.Code

/-- Where Ruby finds a function. -/
inductive Place where
  /-- Everywhere. -/
  | global
  /-- As a function of the module with this handle. -/
  | moduleFunction (handle : String)
  /-- On the class with this handle itself. -/
  | singleton (handle : String)
  /-- On the objects of the class with this handle. -/
  | method (handle : String)
  deriving DecidableEq, Repr, Inhabited

/-- A statement of a registration function. -/
inductive Statement where
  /-- A line of the function's frame. -/
  | frame (line : String)
  /-- Hand-written code. -/
  | custom (line : String)
  | defineModule (handle ruby : String) (parent : Option String)
  | defineClass (handle cpp : String) (superclass parent : Option String) (ruby : String)
  | defineEnum (handle cpp : String) (parent : Option String) (ruby : String)
  | defineValue (handle ruby cpp : String)
  | defineDirector (handle director : String)
  | defineConstructor (handle : String) (types : List String)
  | bind (place : Place) (ruby target : String)
  deriving DecidableEq, Repr, Inhabited

/-- A Ruby name as a C string. Ruby names are written as they are. -/
def literal (ruby : String) : String := "\"" ++ ruby ++ "\""

/-- The arguments of a template. -/
def template (args : List String) : String := "< " ++ String.intercalate ", " args ++ " >"

/-- The call that binds a function, up to its arguments. -/
def Place.definer : Place → String
  | global => "Rice::define_global_function"
  | moduleFunction handle => handle ++ ".define_module_function"
  | singleton handle => handle ++ ".define_singleton_method"
  | method handle => handle ++ ".define_method"

namespace Statement

/-- The statement as a line of C++. -/
def text : Statement → String
  | frame line => line
  | custom line => line
  | defineModule handle ruby parent =>
    "\tRice::Module " ++ handle ++ " = " ++
      match parent with
      | some p => "Rice::define_module_under(" ++ p ++ ", " ++ literal ruby ++ ");"
      | none => "Rice::define_module(" ++ literal ruby ++ ");"
  | defineClass handle cpp superclass parent ruby =>
    let types := template (cpp :: superclass.toList)
    "\tRice::Data_Type" ++ template [cpp] ++ " " ++ handle ++ " = " ++
      match parent with
      | some p => "Rice::define_class_under" ++ types ++ "(" ++ p ++ ", " ++ literal ruby ++ ");"
      | none => "Rice::define_class" ++ types ++ "(" ++ literal ruby ++ ");"
  | defineEnum handle cpp parent ruby =>
    let under := parent.elim "" (", " ++ ·)
    "\tRice::Enum" ++ template [cpp] ++ " " ++ handle ++ " = Rice::define_enum" ++ template [cpp] ++
      "(" ++ literal ruby ++ under ++ ");"
  | defineValue handle ruby cpp =>
    "\t" ++ handle ++ ".define_value(" ++ literal ruby ++ ", " ++ cpp ++ ");"
  | defineDirector handle director =>
    "\t" ++ handle ++ ".define_director" ++ template [director] ++ "();"
  | defineConstructor handle types =>
    "\t" ++ handle ++ ".define_constructor(Rice::Constructor" ++ template types ++ "());"
  | bind place ruby target =>
    "\t" ++ place.definer ++ "(" ++ literal ruby ++ ", &" ++ target ++ ");"

end Statement

end RubyBinding.Code
