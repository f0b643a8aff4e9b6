import Boxlang.Conversion.Basic
import Boxlang.Emit.Box

/-!
# Code for conversions

`realize` emits the code of one conversion.  An adapted callable gets a function
of its own, whose context is the box of the wrapped callable.
-/

namespace Boxlang

namespace Emit

open Llvm

/-! ### The conversions one by one -/

/-- The tag of a box made from a value of type `t`. -/
def boxTag (value : Value) (t : Ty) (protocol : Option String) : Emit Operand := do
  match protocol, t.unboxed with
  | some protocol, .object _ _ =>
    let tag ← metaOfObject value.operand
    conformanceOf tag protocol
  | some protocol, _ => return .global (← conformanceSymbol t protocol)
  | none, _ => dynamicMeta value t

def realizeBox (value : Value) (t : Ty) (protocol : Option String) : Emit Value := do
  let box ← alloc .box
  let tag ← boxTag value t protocol
  let field ← tagField box
  storePointer tag field
  storeInBox box value t
  return .pointer box

def realizeBoxOptional (value : Value) (t : Ty) : Emit Value := do
  let layout := OptionalLayout.ofType t
  let box ← alloc .box
  let field ← tagField box
  let empty ← optionalIsEmpty value layout
  let someLabel ← freshLabel .boxSome
  let noneLabel ← freshLabel .boxNone
  let joinLabel ← freshLabel .boxJoin
  finishBlock (.branch empty noneLabel someLabel)
  startBlock someLabel
  let payload ← optionalPayload value layout (← llvmType t)
  let tag ← dynamicMeta payload t
  storePointer tag field
  storeInBox box payload t
  finishBlock (.jump joinLabel)
  startBlock noneLabel
  storePointer .null field
  finishBlock (.jump joinLabel)
  startBlock joinLabel
  return .pointer box

/-- The box is copied, because it may be shared, and the copy gets the new tag. -/
def realizeRebox (value : Value) (protocol : String) : Emit Value := do
  let tag ← loadTag value.operand
  let conformance ← conformanceOf tag protocol
  let size ← sizeFor .box
  let copy := (← emitCall .ptr (runtime "ember_alloc") [⟨.int 64, size⟩]).operand
  emit (.callVoid (runtime "llvm.memcpy.p0.p0.i64")
    [.pointer copy, .pointer value.operand, ⟨.int 64, size⟩, ⟨.int 1, .bool false⟩])
  let field ← tagField copy
  storePointer conformance field
  return .pointer copy

/--
Traps unless a box holds a value of type `t`.  A box of an object carries the
meta of its dynamic class, which may be a subclass, and is not checked.
-/
def checkTag (box : Operand) (t : Ty) : Emit Unit := do
  match t.unboxed with
  | .object _ _ => return ()
  | _ =>
    let tag ← loadTag box
    let expected ← metaSymbol t
    let mismatch ← define (.compare · .ne (.pointer tag) (.global expected))
    emitCheck mismatch "box holds a value of another type"

def realizeUnbox (value : Value) (t : Ty) : Emit Value := do
  checkTag value.operand t
  loadFromBox value.operand t

def realizeUnboxOptional (value : Value) (t : Ty) : Emit Value := do
  let inner := t.optionalInner?.getD t
  let layout := OptionalLayout.ofType inner
  let type ← llvmType t
  let empty ← boxIsEmpty value.operand
  let someLabel ← freshLabel .unboxSome
  let noneLabel ← freshLabel .unboxNone
  let joinLabel ← freshLabel .unboxJoin
  finishBlock (.branch empty noneLabel someLabel)
  startBlock someLabel
  checkTag value.operand inner
  let payload ← loadFromBox value.operand inner
  let present ← wrapOptional payload layout type
  -- The check may have started a block of its own.
  let someEnd := (← get).label
  finishBlock (.jump joinLabel)
  startBlock noneLabel
  finishBlock (.jump joinLabel)
  startBlock joinLabel
  let incoming := [(present.operand, someEnd), (absentOperand layout, noneLabel)]
  return ⟨type, ← define (.phi · type incoming)⟩

def realizeUnwrapOptional (value : Value) (source : Ty) : Emit Value := do
  let inner := source.optionalInner?.getD source
  let layout := OptionalLayout.ofType inner
  let empty ← optionalIsEmpty value layout
  emitCheck empty "unwrapped an empty optional"
  optionalPayload value layout (← llvmType inner)

def realizeUnwrapBoxOptional (value : Value) : Emit Value := do
  let empty ← boxIsEmpty value.operand
  emitCheck empty "unwrapped an empty optional"
  return value

/-! ### Parameters -/

/--
The declared parameters of a function: what its style puts first, then the given
ones without those of type void.  Captured values are loaded from the context, and
variables are bound to what they stand for.
-/
def declareArguments (params : List (Option VariableId × LType)) : Emit (List Value) := do
  let first ← declareFirst (← read).style
  let rest ← params.zipIdx.mapM fun ((id?, type), i) => do
    let value : Value := if type.isVoid then .void else ⟨type, .param i⟩
    if let some id := id? then
      bind id value
    return value
  return first ++ rest.filter (!·.isVoid)
where
  /-- Binds an immutable variable. -/
  bind (id : VariableId) (value : Value) : Emit Unit :=
    modify fun s => { s with bindings := s.bindings.set id { isMutable := false, value } }
  /-- What comes before the declared parameters. -/
  declareFirst : ArgumentStyle → Emit (List Value)
    | .free => return []
    | .method this => return [⟨← llvmType this, .receiver⟩]
    | .closure captures => do
      let type := LType.struct (captures.map (·.2))
      captures.zipIdx.forM fun ((id, field), i) => do
        let address ← define (.address · type .context [0, i])
        let value ← define (.load · field address)
        bind id ⟨field, value⟩
      return [.pointer .context]

/-! ### All conversions -/

mutual

/-- Converts a value held as `source` to one held as `target`. -/
def realize (op : Conversion) (value : Value) (source target : Ty) : Emit Value := do
  match op with
  | .box t protocol => realizeBox value t protocol
  | .boxOptional t => realizeBoxOptional value t
  | .rebox protocol => realizeRebox value protocol
  | .unbox t => realizeUnbox value t
  | .unboxOptional t => realizeUnboxOptional value t
  | .wrapOptional => wrapOptional value (OptionalLayout.ofType source) (← llvmType target)
  | .unwrapOptional => realizeUnwrapOptional value source
  | .unwrapBoxOptional => realizeUnwrapBoxOptional value
  | .adaptCallable inner outer args ret =>
    let name ← nextAdapterName
    let thunk ← nested name 0 (.closure []) do
      match inner.unboxed, outer.unboxed with
      | .callable params innerRet, .callable params' outerRet =>
        let types ← params'.mapM llvmType
        let declared ← declareArguments (types.map fun t => (none, t))
        let wrapped ← loadWord .context 0
        let wrappedContext ← loadWord .context 1
        let values := types.zipIdx.map fun (t, i) => Value.mk t (.param i)
        let converted ← realizeAll args (values.zip (params'.zip params))
        let result ←
          emitCall (← llvmType innerRet) wrapped (.pointer wrappedContext :: converted)
        let result ← realizeEntry ret result innerRet outerRet
        emitReturn result
        finished (← llvmType outerRet) declared
      | _, _ => unsupported (.adapting inner.text outer.text)
    pushFunction (.function thunk)
    makeCallable (.global ⟨name⟩) value.operand
termination_by structural op

def realizeEntry (entry : Option Conversion) (value : Value) (source target : Ty) : Emit Value :=
  match entry with
  | some op => realize op value source target
  | none => return value
termination_by structural entry

def realizeAll (entries : List (Option Conversion)) (values : List (Value × Ty × Ty)) :
    Emit (List Value) := do
  match entries, values with
  | entry :: entries, (value, source, target) :: values =>
    let v ← realizeEntry entry value source target
    return v :: (← realizeAll entries values)
  | _, _ => return []
termination_by structural entries

end

end Emit

end Boxlang
