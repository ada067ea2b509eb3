import RubyBinding.Json.Token

/-!
# Reading JSON

The reader goes over the tokens once, from left to right, and keeps the arrays and objects that are
still open on a stack. `State.step?` is the grammar: it says for each state which tokens may come
next. A text may nest at most `depthLimit` arrays and objects, and nothing but blanks may follow the
value.
-/

namespace RubyBinding.Json

/-- An array or object that is still open: what it holds so far, latest first, and for an object
the key whose value is due. -/
inductive Container where
  | array (done : List Value)
  | object (done : List (String × Value)) (key : String)
  deriving Repr

/-- What may come next, below the stack of open containers. -/
inductive State where
  /-- A value is due. -/
  | value (stack : List Container)
  /-- An array has just been opened. -/
  | firstItem (stack : List Container)
  /-- An object has just been opened. -/
  | firstKey (stack : List Container)
  /-- A key is due after a comma. -/
  | key (done : List (String × Value)) (stack : List Container)
  /-- The colon after a key is due. -/
  | colon (done : List (String × Value)) (key : String) (stack : List Container)
  /-- A value has just ended. -/
  | ended (v : Value) (stack : List Container)
  deriving Repr

/-- How many arrays and objects may be open at once. -/
def depthLimit : Nat := 127

namespace State

/-- Open a container, if it is not nested too deep. -/
def descend? (stack : List Container) (next : State) : Option State :=
  if stack.length < depthLimit then some next else none

/-- Begin a value below `stack`. -/
def begin? (stack : List Container) : Token → Option State
  | .scalar v => some (ended v stack)
  | .openBracket => descend? stack (firstItem stack)
  | .openBrace => descend? stack (firstKey stack)
  | _ => none

/-- The state after one more token. -/
def step? : State → Token → Option State
  | value stack, t => begin? stack t
  | firstItem stack, .closeBracket => some (ended (.array []) stack)
  | firstItem stack, t => begin? (.array [] :: stack) t
  | firstKey stack, .closeBrace => some (ended (.object []) stack)
  | firstKey stack, .scalar (.string k) => some (colon [] k stack)
  | key done stack, .scalar (.string k) => some (colon done k stack)
  | colon done k stack, .colon => some (value (.object done k :: stack))
  | ended v (.array done :: stack), .comma => some (value (.array (v :: done) :: stack))
  | ended v (.array done :: stack), .closeBracket =>
    some (ended (.array (v :: done).reverse) stack)
  | ended v (.object done k :: stack), .comma => some (key ((k, v) :: done) stack)
  | ended v (.object done k :: stack), .closeBrace =>
    some (ended (.object ((k, v) :: done).reverse) stack)
  | _, _ => none

/-- The value of a state in which a text may end. -/
def result? : State → Option Value
  | ended v [] => some v
  | _ => none

end State

/-- The value that some tokens write. -/
def ofTokens? (tokens : List Token) : Option Value := do
  (← tokens.foldlM State.step? (.value [])).result?

/-- The value that a text writes. -/
def read? (text : String) : Option Value := do ofTokens? (← Token.scan? text.toList)

end RubyBinding.Json
