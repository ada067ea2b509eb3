import RubyBinding.Session
import RubyBinding.Code.Definition

/-!
# Forwarding functions

Rice passes every function a receiver and cannot tell overloads apart, so nothing is bound directly:
each function, method and field gets functions of its own that forward to it. A function that takes
a callback gets three definitions: a variable for the Ruby block, a function that calls the block,
and the function that Ruby calls.
-/

namespace RubyBinding

open Code (Slot Wrapper Definition)

/-- What a forwarding function does with the Ruby receiver. -/
inductive Receiver where
  /-- Nothing. -/
  | ignored
  /-- It calls a method of an object of this class. -/
  | object (cpp : String)
  /-- It passes an object of this class as the first argument. -/
  | argument (cpp : String)
  deriving DecidableEq, Repr

/-- A bound function: its name, and the definitions that it consists of. -/
structure Forwarder where
  name : String
  definitions : List Definition
  deriving Repr, Inhabited, BEq

/-- The functions that read and write a field. -/
structure Accessors where
  getter : String
  /-- None for what cannot be assigned to. -/
  setter : Option String
  definitions : List Definition
  deriving Repr, Inhabited, BEq

/-! ## Emitting definitions -/

/-- A step of a run that is given the definitions so far and puts some behind them. What a failed step
did to them, and to the session, stays done. -/
abbrev Emit := ExceptT GenError (StateT (List Definition) Run)

/-- Put a definition behind those that are there. -/
def emit (d : Definition) : Emit Unit := modify fun ds => ds ++ [d]

/-- Put the definitions of a function behind those that are there, and give its name. -/
def emitAll (f : Forwarder) : Emit String := do
  f.definitions.forM emit
  return f.name

/-- A function with what is emitted for it, where nothing was there before. -/
def Emit.collected (m : Emit String) : Gen Forwarder := ExceptT.mk do
  let (name, definitions) ← m.run.run []
  return name.map fun name => ⟨name, definitions⟩

/-- Whether something is a field that a function can return. -/
def Kind.isReadable : Kind → Bool
  | field ty _ _ => !ty.isCallback
  | _ => false

namespace Receiver

/-- The first parameter of a forwarding function. -/
def slot : Receiver → Slot
  | ignored => .anyReceiver
  | object cpp | argument cpp => .receiver cpp

/-- How the forwarded function is called. -/
def target (qualified name : String) : Receiver → String
  | object _ => "self->" ++ name
  | ignored | argument _ => qualified

/-- The arguments that are the receiver itself. -/
def arguments : Receiver → List Param → List String
  | argument _, first :: _ => [if first.ty.isPointer then "self" else "*self"]
  | _, _ => []

/-- The parameters that are left for Ruby to pass, with their positions. -/
def remaining (r : Receiver) (params : List Param) : List (Param × Nat) :=
  match r with
  | argument _ => params.zipIdx.drop 1
  | ignored | object _ => params.zipIdx

end Receiver

/-- What stands in the way of forwarding to a function, judged by its parameters. -/
def callbackFault? (receiver : Receiver) (params : List Param) : Option CallbackFault :=
  if !params.any fun p => p.ty.isCallback then none
  else if params.length > 1 then some .notAlone
  else match receiver with
    | .argument _ => some .onInstance
    | .ignored | .object _ => none

namespace Setting

variable (g : Setting)

/-! ## Functions and methods -/

/-- Parameters with their resolved types. -/
def slots (scope : DeclId) (params : List (Param × Nat)) : Run (List Slot) :=
  params.mapM fun (p, i) => do return ⟨← g.resolveParam scope p.ty, p.nameAt i⟩

/-- The result of a function with its resolved type. -/
def result (scope : DeclId) : Option Ty → Run Ty
  | none => return .void
  | some t => g.resolveResult scope t

/-- Forward to a function whose parameters are passed on one by one. -/
def forwardPlain (i : DeclId) (receiver : Receiver) : Run Forwarder := do
  let tree := g.library.tree
  let d := tree.get i
  let qualified := tree.qualifiedName i
  let scope := tree.scopeOf i
  let params := d.kind.params
  let result ← g.result scope d.kind.result?
  let name ← freshName ("wrap_" ++ identifier qualified)
  let slots ← g.slots scope (receiver.remaining params)
  let arguments := receiver.arguments params ++ slots.map Slot.name
  return ⟨name, [.wrapper ⟨i, result, name, receiver.slot :: slots,
    .forward (receiver.target qualified d.name) arguments⟩]⟩

/-- Forward to a function that takes a callback, which is called with the resolved signature. -/
def forwardCallback (i : DeclId) (receiver : Receiver) (signature : Ty × List Ty) :
    Run Forwarder := do
  let tree := g.library.tree
  let qualified := tree.qualifiedName i
  let lead := "wrap_for_callback_"
  let name ← freshName (lead ++ identifier qualified)
  let suffix := String.ofList ((Text.after? lead.toList name.toList).getD [])
  let block := "_block_for_" ++ suffix
  let yielder := "do_yield_on_" ++ suffix
  let yielded := signature.2.zipIdx.map fun (t, k) => ⟨t, "arg" ++ toString k⟩
  let target := receiver.target qualified (tree.get i).name
  let entry : Wrapper := match receiver with
    | .object cpp =>
      ⟨i, .named "VALUE", name, [.receiver cpp], .takeBlock block target yielder true⟩
    | .ignored | .argument _ =>
      ⟨i, .void, name, [.anyReceiver], .takeBlock block target yielder false⟩
  return ⟨name, [.block block, .wrapper ⟨i, signature.1, yielder, yielded, .callBlock block⟩,
    .wrapper entry]⟩

/-- The signature with which a function's callback is called. -/
def callbackSignature (i : DeclId) (callback : Ty) : Except CallbackFault (Ty × List Ty) :=
  match (g.library.resolve (g.library.tree.scopeOf i) callback).callback? with
  | none => .error .unresolved
  | some (result, params) =>
    if params.any Ty.isCallback then .error .nested else .ok (result, params)

/-- Emit a function that forwards to a function or method, and give its name. -/
def emitForward (i : DeclId) (receiver : Receiver) : Emit String := do
  let params := (g.library.tree.get i).kind.params
  let refuse := fun fault => GenError.unsupportedCallback (g.library.tree.qualifiedName i) fault
  match callbackFault? receiver params, params.find? fun p => p.ty.isCallback with
  | some fault, _ => throw (refuse fault)
  | none, none => emitAll (← g.forwardPlain i receiver)
  | none, some callback =>
    match g.callbackSignature i callback.ty with
    | .error fault => throw (refuse fault)
    | .ok signature => emitAll (← g.forwardCallback i receiver signature)

/-- Forward to a function or method. -/
def forward (i : DeclId) (receiver : Receiver) : Gen Forwarder :=
  (g.emitForward i receiver).collected

/-! ## Fields -/

/-- Read and write a field of a class. Static and constant fields and references are read only. -/
def access (i : DeclId) (cpp : String) (ty : Ty) (isStatic isConst : Bool) : Run Accessors := do
  let tree := g.library.tree
  let qualified := tree.qualifiedName i
  let ty ← g.resolveResult (tree.scopeOf i) ty
  let receiver := if isStatic then Slot.anyReceiver else Slot.receiver cpp
  let place := if isStatic then qualified else "self->" ++ (tree.get i).name
  let getter ← freshName ("wrap_" ++ identifier qualified ++ "_get")
  let get := Definition.wrapper ⟨i, ty, getter, [receiver], .get place⟩
  if isStatic || isConst || ty.isReference then return ⟨getter, none, [get]⟩
  let setter ← freshName ("wrap_" ++ identifier qualified ++ "_set")
  let set := Definition.wrapper ⟨i, .void, setter, [receiver, ⟨ty, "value"⟩], .set place⟩
  return ⟨getter, some setter, [get, set]⟩

/-- The accessors of a declaration, if it is a field that has any. -/
def accessors (i : DeclId) (cpp : String) : Run (Option Accessors) :=
  match (g.library.tree.get i).kind with
  | .field ty isStatic isConst =>
    if ty.isCallback then return none
    else do return some (← g.access i cpp ty isStatic isConst)
  | _ => return none

end Setting

end RubyBinding
