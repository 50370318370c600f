import LuaGlue.Model.Ty

/-!
# Asynchronous signatures

A function that returns nothing and takes an `AsyncCallback` last is asynchronous: the host sees it
without the callback and with an `AsyncResult` of what the callback receives.

* `Signature.async?`: the signature that the host sees, none if the function is not asynchronous.
-/

namespace LuaGlue

namespace Ty

/-- The first argument of a template. -/
def firstArg : List Ty → Except Error Ty
  | [] => .error (.misfit .argumentExpected)
  | t :: _ => .ok t

/-- An instance of the template whose first argument has the name `arg`. -/
def wrapsNamed (t : Ty) (template arg : String) : Except Error Bool :=
  match t with
  | .template name args =>
    if name == template then (firstArg args).map fun a => a.name? == some arg else .ok false
  | _ => .ok false

/-- The primitive `Status`. -/
def isStatus : Ty → Bool
  | .primitive name => name == "Status"
  | _ => false

/-- The type carries an error to a callback. -/
def isErrorCarrier (t : Ty) : Except Error Bool := do
  if ← t.wrapsNamed optionalName "AppError" then .ok true
  else if ← t.wrapsNamed optionalName "Status" then .ok true
  else if t.isStatus then .ok true
  else if ← t.wrapsNamed nullableName "std::error_code" then .ok true
  else t.wrapsNamed nullableName "std::exception_ptr"

/-- What a value for the callback resumes with: the bare type, out of one optional or nullable. -/
def resumedWith (t : Ty) : Except Error Ty :=
  match t.bare with
  | .template name args =>
    if name == optionalName || name == nullableName then firstArg args else .ok (.template name args)
  | u => .ok u

end Ty

/-- What the callback of an asynchronous function resumes with, given its parameters: an error, or a
value and an error. -/
def callbackResult (callback : Ty) : List (String × Ty) → Except Error Ty
  | [err] => do
    if ← err.2.isErrorCarrier then .ok .void
    else .error (.bind (.callbackError err.2.spelling))
  | [value, err] => do
    if ← err.2.isErrorCarrier then value.2.resumedWith
    else .error (.bind (.callbackError err.2.spelling))
  | _ => .error (.bind (.callbackArity callback.spelling))

/-- The result of an asynchronous function, from the type that its `AsyncCallback` wraps, which is a
function without a result. -/
def asyncResultOf (callback : Ty) : Except Error Ty :=
  match callback with
  | .func cb =>
    if cb.ret.isVoid then callbackResult callback cb.params
    else .error (.bind (.callbackNotVoid callback.spelling))
  | _ => .error (.bind (.callbackNotVoid callback.spelling))

namespace Signature

/-- The arguments of the `AsyncCallback` that a function without a result takes last. -/
def asyncCallback? (sig : Signature Ty) : Option (List Ty) :=
  if sig.ret.isVoid then
    match sig.params.getLast? with
    | some (_, last) =>
      match last.bare with
      | .template name args => if name == asyncCallbackName then some args else none
      | _ => none
    | none => none
  else none

/-- The signature that the host sees of an asynchronous function; none of any other. -/
def async? (sig : Signature Ty) : Except Error (Option (Signature Ty)) :=
  match sig.asyncCallback? with
  | none => .ok none
  | some args => do
    let result ← asyncResultOf (← Ty.firstArg args)
    return some ⟨sig.params.dropLast, .template asyncResultName [result], sig.quals⟩

/-- The signature that the host sees. -/
def effective (sig : Signature Ty) : Except Error (Signature Ty) :=
  return (← sig.async?).getD sig

end Signature

end LuaGlue
