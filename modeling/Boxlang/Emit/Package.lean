import Boxlang.Analysis.Package
import Boxlang.Emit.Body

/-!
# Code for packages

The functions of analysed bodies, and the text of the module that holds them:
declarations, functions, and the constants that the functions refer to.  Metas,
protocols, conformances and declarations stand in the order of their names.
-/

namespace Boxlang

open Llvm

namespace Emit

/-! ### The text of a module -/

def sortedNames (names : List String) : List String :=
  names.mergeSort fun a b => a ≤ b

def sortedPairs (pairs : List (String × String)) : List (String × String) :=
  pairs.mergeSort fun a b => if a.1 = b.1 then a.2 ≤ b.2 else a.1 ≤ b.1

def typeLines : List String :=
  ["%ember.box = type \x7b ptr, [4 x i64] \x7d", "%ember.meta = type \x7b ptr \x7d",
    "%ember.conformance = type \x7b ptr, ptr \x7d"]

def runtimeLines : List String :=
  ["declare ptr @ember_alloc(i64)", "declare ptr @ember_string_new(ptr, i64)",
    "declare ptr @ember_conformance(ptr, ptr)", "declare ptr @ember_method(ptr, ptr)",
    "declare void @ember_panic(ptr) noreturn",
    "declare void @llvm.memcpy.p0.p0.i64(ptr, ptr, i64, i1)"]

def Declared.line (f : Declared) : String :=
  "declare " ++ f.ret.text ++ " " ++ f.symbol.text
    ++ "(" ++ commaSeparated (f.params.map LType.text) ++ ")"

def Synthesized.text : Synthesized → String
  | .function f => f.text
  | .verbatim s => s

def stringLine (symbol : Global) (value : String) : String :=
  symbol.text ++ s!" = private unnamed_addr constant [{value.utf8ByteSize + 1} x i8] c\""
    ++ String.ofList (constantText value.toUTF8.toList) ++ "\\00\""

def metaLine (symbol : Global) (name : String) : String :=
  symbol.text ++ " = constant %ember.meta \x7b ptr " ++ (nameGlobal name).text ++ " \x7d"

def conformanceLine (type protocol : String) : String :=
  (conformanceGlobal type protocol).text ++ " = constant %ember.conformance \x7b ptr "
    ++ (metaGlobal type).text ++ ", ptr " ++ (protocolGlobal protocol).text ++ " \x7d"

def ConstantBox.line (symbol : Global) (box : ConstantBox) : String :=
  symbol.text ++ " = private unnamed_addr constant %ember.box \x7b ptr " ++ box.tag.text
    ++ ", [4 x i64] ["
    ++ commaSeparated (box.words.toList.map fun w => s!"i64 {w.toInt64.toInt}") ++ "] \x7d"

namespace ModuleState

def declared (s : ModuleState) : List Declared :=
  (s.callees.filter fun f => !s.defined.contains f.symbol).mergeSort fun f g =>
    f.symbol.text ≤ g.symbol.text

/-- The types whose metas the module holds: also those that conformances refer to. -/
def allMetas (s : ModuleState) : List String :=
  sortedNames (s.conformances.foldl (fun metas (type, _) => metas.insert type) s.metas)

def allNames (s : ModuleState) : List String :=
  sortedNames (s.protocols.foldl (fun names name => names.insert name) s.allMetas)

def constantLines (s : ModuleState) : List String :=
  (s.strings.zipIdx.map fun (value, i) => stringLine (stringGlobal i) value)
    ++ (s.allMetas.map fun name => metaLine (metaGlobal name) name)
    ++ ((sortedNames s.protocols).map fun name => metaLine (protocolGlobal name) name)
    ++ ((sortedPairs s.conformances).map fun (type, protocol) => conformanceLine type protocol)
    ++ (s.boxes.zipIdx.map fun (box, i) => box.line (boxGlobal i))
    ++ (s.allNames.map fun name => stringLine (nameGlobal name) name)

def text (s : ModuleState) (package triple : String) (functions : List FunctionDef) : String :=
  unlines
      (["; ModuleID = '" ++ package ++ "'", "source_filename = \"" ++ package ++ "\"",
          "target triple = \"" ++ triple ++ "\"", ""]
        ++ typeLines ++ [""] ++ runtimeLines ++ s.declared.map Declared.line ++ [""])
    ++ String.join (functions.map FunctionDef.text)
    ++ String.join (s.synthesized.map Synthesized.text)
    ++ unlines s.constantLines

end ModuleState

end Emit

namespace Package

open Emit

def runEmit {α : Type} (p : Package) (name : String) (body : Body) (style : ArgumentStyle)
    (step : Emit α) : ModuleM (Except EmitError α × FunctionState) :=
  (step { package := p, name, arena := body.arena, variableCount := body.variableCount, style }).run
    (.start body.variableCount)

def emitDefinition (p : Package) (definition : Definition) :
    ExceptT EmitError ModuleM FunctionDef := do
  let f := p.signature definition.function
  let name := f.qualifiedName
  noteDefined name
  ExceptT.mk
    (Prod.fst <$> p.runEmit name definition.body (styleOf f) (genFunction f definition.body.stmts))

def emitModule (p : Package) (triple : String) (definitions : List Definition) :
    ExceptT EmitError ModuleM String := do
  let functions ← definitions.mapM p.emitDefinition
  return (← get).text p.name triple functions

def emit (p : Package) (triple : String) (definitions : List Definition) :
    Except EmitError String :=
  ((p.emitModule triple definitions).run {}).1

end Package

end Boxlang
