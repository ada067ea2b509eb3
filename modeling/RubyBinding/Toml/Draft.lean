import RubyBinding.Toml.Value

/-!
# Tables under construction

A TOML document says where in a tree of tables a value goes, by headers and by dotted keys, and no
place may be defined twice. Whether something may still be added to a table depends on how the table
came to be, so a `Draft` remembers this until the document has been read.
-/

namespace RubyBinding.Toml

/-- How a table came to be. -/
inductive Origin where
  /-- By a header, or it is the document itself. -/
  | header
  /-- It stands above a table that has a header. -/
  | implied
  /-- By a dotted key. -/
  | dotted
  deriving DecidableEq, Repr

/-- An entry of a table under construction. -/
inductive Draft where
  | value (v : Value)
  | table (origin : Origin) (members : List (String × Draft))
  /-- An array of tables, to the last of which more can be added. -/
  | tables (before : List (List (String × Draft))) (last : List (String × Draft))
  deriving Repr, Inhabited

namespace Draft

/-- The members of a table under construction. -/
abbrev Members := List (String × Draft)

/-- Put an entry in the place of the one with the same key, or at the end. -/
def set (key : String) (d : Draft) : Members → Members
  | [] => [(key, d)]
  | (k, e) :: ms => if k = key then (k, d) :: ms else (k, e) :: set key d ms

/-- Add a value under a dotted key: the parts but the last one, then the last one. Tables that are
missing on the way are made; the value may only be added to the table of a header that is being
filled, or to one made by a dotted key. -/
def addBelow (mayAdd : Bool) (members : Members) (path : List String) (key : String) (v : Value) :
    Option Members :=
  match path with
  | [] => if mayAdd && (members.lookup key).isNone then some (members ++ [(key, value v)]) else none
  | p :: ps =>
    match members.lookup p with
    | none => do return set p (table .dotted (← addBelow true [] ps key v)) members
    | some (.value _) => none
    | some (.table .header _) => none
    | some (.table .implied inner) => do
      return set p (table .implied (← addBelow false inner ps key v)) members
    | some (.table .dotted inner) => do
      return set p (table .dotted (← addBelow true inner ps key v)) members
    | some (.tables before last) => do
      return set p (tables before (← addBelow false last ps key v)) members

/-- Add a value under a dotted key. -/
def add (members : Members) (key : List String) (v : Value) : Option Members :=
  match key.getLast? with
  | some last => addBelow true members key.dropLast last v
  | none => none

/-- Change the members of the table that a header's path leads to. Tables that are missing on the
way are implied. -/
def within (path : List String) (f : Members → Option Members) (members : Members) :
    Option Members :=
  match path with
  | [] => f members
  | p :: ps =>
    match members.lookup p with
    | none => do return set p (table .implied (← within ps f [])) members
    | some (.value _) => none
    | some (.table origin inner) => do return set p (table origin (← within ps f inner)) members
    | some (.tables before last) => do
      return set p (tables before (← within ps f last)) members

/-- Define the table of a header. A table that was only implied so far is kept. -/
def defineTable (key : String) (members : Members) : Option Members :=
  match members.lookup key with
  | none => some (set key (table .header []) members)
  | some (.table .implied inner) => some (set key (table .header inner) members)
  | some _ => none

/-- Begin another table of an array of tables. -/
def defineItem (key : String) (members : Members) : Option Members :=
  match members.lookup key with
  | none => some (set key (tables [] []) members)
  | some (.tables before last) => some (set key (tables (before ++ [last]) []) members)
  | some _ => none

mutual

/-- The value of a finished entry. -/
def finish : Draft → Value
  | value v => v
  | table _ members => .table (finishMembers members)
  | tables before last => .array (finishTables before ++ [.table (finishMembers last)])

def finishMembers : List (String × Draft) → List (String × Value)
  | [] => []
  | (k, d) :: ms => (k, finish d) :: finishMembers ms

def finishTables : List (List (String × Draft)) → List Value
  | [] => []
  | ms :: rest => .table (finishMembers ms) :: finishTables rest

end

end Draft

end RubyBinding.Toml
