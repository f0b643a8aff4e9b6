import Boxlang.Layout.Box
import Boxlang.Layout.Optional
import Boxlang.Llvm.Text
import Boxlang.Package
import Boxlang.Storage

/-!
# Modules under construction

What generated code refers to beyond its own function: metas, protocols and
conformances, strings and constant boxes, functions made along the way, and
callees.  Referring to one of them notes it in the `ModuleState`, from which the
text of the module is written at the end.
-/

namespace Boxlang

open Llvm (LType Operand Value Global FunctionDef)

/-! ### LLVM types -/

namespace Declarations

def nativeType (d : Declarations) (t : Ty) : LType :=
  match t.unboxed with
  | .int | .enum _ => .int 64
  | .real => .double
  | .bool => .int 1
  | .byte => .int 8
  | .symbol => .int 32
  | .object _ _ | .typeValue _ => .ptr
  | .value _ _ => .words (d.wordsOf t)
  | _ => .void

def llvmType (d : Declarations) (t : Ty) : LType :=
  match t.storage with
  | .box => .ptr
  | .simple => d.nativeType t
  | .simpleOptional =>
    let inner := t.optionalInner?.getD t
    match OptionalLayout.ofType inner with
    | .flagged => .struct [.int 1, d.nativeType inner]
    | .nullPointer | .sentinel _ => d.nativeType inner

end Declarations

/-! ### The state of a module -/

namespace Emit

structure ConstantBox where
  tag : Operand
  words : Vector UInt64 boxValueWords
  deriving Inhabited

/-- A function that is known by its signature only. -/
structure Declared where
  symbol : Global
  ret : LType
  params : List LType
  deriving Inhabited

/-- A function made while another one was generated. -/
inductive Synthesized where
  | function (f : FunctionDef)
  | verbatim (text : String)
  deriving Inhabited

/--
What a module refers to so far.  No list but those of constants and functions
repeats an entry.
-/
structure ModuleState where
  /-- The types, as written, whose metas are referred to. -/
  metas : List String := []
  protocols : List String := []
  /-- The conformances of types to protocols that are referred to. -/
  conformances : List (String × String) := []
  strings : List String := []
  boxes : List ConstantBox := []
  synthesized : List Synthesized := []
  callees : List Declared := []
  /-- The functions that have a body in the module. -/
  defined : List Global := []
  nextClosure : Nat := 0
  nextAdapter : Nat := 0
  deriving Inhabited

/-- A step that may refer to new parts of a module. -/
abbrev ModuleM := StateM ModuleState

/-! ### Names -/

def metaGlobal (type : String) : Global :=
  ⟨"ember.meta." ++ type⟩

def protocolGlobal (protocol : String) : Global :=
  ⟨"ember.protocol." ++ protocol⟩

def conformanceGlobal (type protocol : String) : Global :=
  ⟨"ember.conformance." ++ type ++ "." ++ protocol⟩

def nameGlobal (name : String) : Global :=
  ⟨"ember.name." ++ name⟩

def stringGlobal (index : Nat) : Global :=
  ⟨s!".str.{index}"⟩

def boxGlobal (index : Nat) : Global :=
  ⟨s!".box.{index}"⟩

def callableTypeName : String :=
  "callable"

/-! ### References -/

def callableMeta : ModuleM Global :=
  modifyGet fun s =>
    (metaGlobal callableTypeName, { s with metas := s.metas.insert callableTypeName })

/-- The meta of a simple type that is not a class; class metas are read from objects. -/
def metaSymbol (t : Ty) : ModuleM Global :=
  if t.isCallable then callableMeta
  else
    let name := t.erased.text
    modifyGet fun s => (metaGlobal name, { s with metas := s.metas.insert name })

def protocolSymbol (protocol : String) : ModuleM Global :=
  modifyGet fun s => (protocolGlobal protocol, { s with protocols := s.protocols.insert protocol })

/-- The conformance with which boxes of `t` held as the protocol are tagged. -/
def conformanceSymbol (t : Ty) (protocol : String) : ModuleM Global :=
  let name := t.erased.text
  modifyGet fun s =>
    (conformanceGlobal name protocol,
      { s with
        protocols := s.protocols.insert protocol
        conformances := s.conformances.insert (name, protocol) })

def internString (value : String) : ModuleM Global :=
  modifyGet fun s =>
    match s.strings.findIdx? (· == value) with
    | some i => (stringGlobal i, s)
    | none => (stringGlobal s.strings.length, { s with strings := s.strings ++ [value] })

def constantBox (tag : Operand) (image : BoxImage) : ModuleM Global :=
  modifyGet fun s =>
    (boxGlobal s.boxes.length, { s with boxes := s.boxes ++ [{ tag, words := image.words }] })

def nextClosureName (enclosing : String) : ModuleM String :=
  modifyGet fun s =>
    (s!"{enclosing}.closure.{s.nextClosure}", { s with nextClosure := s.nextClosure + 1 })

def nextAdapterName : ModuleM String :=
  modifyGet fun s =>
    (s!"ember.adapter.{s.nextAdapter}", { s with nextAdapter := s.nextAdapter + 1 })

def pushFunction (f : Synthesized) : ModuleM Unit :=
  modify fun s => { s with synthesized := s.synthesized ++ [f] }

def noteDefined (name : String) : ModuleM Unit :=
  modify fun s => { s with defined := s.defined.insert ⟨name⟩ }

/--
The declaration of a package function: a receiver comes first, and parameters of
type void are left out.
-/
def declarationOf (d : Declarations) (f : Signature) : Declared where
  symbol := ⟨f.qualifiedName⟩
  ret := d.llvmType f.ret
  params :=
    (f.owner?.map d.llvmType).toList
      ++ (f.params.map fun p => d.llvmType p.type).filter (!·.isVoid)

/-- The symbol of a package function, which is declared unless it gets a body. -/
def functionSymbol (d : Declarations) (f : Signature) : ModuleM Global :=
  let declared := declarationOf d f
  modifyGet fun s =>
    (declared.symbol,
      if s.callees.any (·.symbol == declared.symbol) then s
      else { s with callees := s.callees ++ [declared] })

end Emit

end Boxlang
