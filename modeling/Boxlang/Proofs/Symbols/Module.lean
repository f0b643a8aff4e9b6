import Boxlang.Proofs.Emit.Extends
import Boxlang.Proofs.Symbols.Names

/-!
# The symbols of a module

The text of a module is a list of entries, each of which declares or defines one symbol
(`Generated.text_eq`).  What a module refers to while it is generated is among these
symbols: each reference that is noted has its entry.
-/

namespace Boxlang

open Llvm

namespace Llvm

def Instr.operands (i : Instr) : List Operand :=
  i.uses ++ i.incoming.map (·.1)

def Instr.callee? : Instr → Option Operand
  | .call _ _ callee _ | .callVoid callee _ => some callee
  | _ => none

def FunctionDef.exits (f : FunctionDef) : List Terminator :=
  f.blocks.map (·.exit)

end Llvm

namespace Emit

/-! ### Entries -/

inductive Piece where
  | verbatim (text : String)
  | reference (symbol : Global)

def Piece.text : Piece → String
  | .verbatim s => s
  | .reference g => g.text

@[simp]
theorem Piece.text_verbatim (s : String) : (Piece.verbatim s).text = s := rfl

@[simp]
theorem Piece.text_reference (g : Global) : (Piece.reference g).text = g.text := rfl

def Piece.symbol? : Piece → Option Global
  | .verbatim _ => none
  | .reference g => some g

/-- What the text of a module says about one symbol, with what comes right after the symbol. -/
inductive Entry where
  | declaration (type : String) (symbol : Global) (rest : String)
  | definition (type : String) (symbol : Global) (rest : String)
  | constant (symbol : Global) (rest : List Piece)

namespace Entry

def symbol : Entry → Global
  | .declaration _ g _ | .definition _ g _ | .constant g _ => g

def mentions : Entry → List Global
  | .constant _ rest => rest.filterMap Piece.symbol?
  | .declaration _ _ _ | .definition _ _ _ => []

def text : Entry → String
  | .declaration type g rest => "declare " ++ type ++ " " ++ g.text ++ rest ++ "\n"
  | .definition type g rest => "define " ++ type ++ " " ++ g.text ++ rest
  | .constant g rest => g.text ++ String.join (rest.map Piece.text) ++ "\n"

end Entry

def runtimeEntries : List Entry :=
  [.declaration "ptr" ⟨"ember_alloc"⟩ "(i64)", .declaration "ptr" ⟨"ember_string_new"⟩ "(ptr, i64)",
    .declaration "ptr" ⟨"ember_conformance"⟩ "(ptr, ptr)",
    .declaration "ptr" ⟨"ember_method"⟩ "(ptr, ptr)",
    .declaration "void" ⟨"ember_panic"⟩ "(ptr) noreturn",
    .declaration "void" ⟨"llvm.memcpy.p0.p0.i64"⟩ "(ptr, ptr, i64, i1)"]

/-- The names of the functions of the run-time library, other than that of LLVM itself. -/
def emberNames : List String :=
  ["ember_alloc", "ember_string_new", "ember_conformance", "ember_method", "ember_panic"]

def runtimeNames : List String :=
  emberNames ++ ["llvm.memcpy.p0.p0.i64"]

theorem map_symbol_runtimeEntries : runtimeEntries.map Entry.symbol = runtimeNames.map Global.mk :=
  rfl

def Declared.entry (f : Declared) : Entry :=
  .declaration f.ret.text f.symbol ("(" ++ commaSeparated (f.params.map LType.text) ++ ")")

def functionEntry (f : FunctionDef) : Entry :=
  .definition f.ret.text ⟨f.name⟩
    (argumentText f.params ++ " \x7b\n" ++ unlines (f.blocks.flatMap Block.lines) ++ "\x7d\n\n")

def Synthesized.function? : Synthesized → Option FunctionDef
  | .function f => some f
  | .verbatim _ => none

def ModuleState.madeFunctions (s : ModuleState) : List FunctionDef :=
  s.synthesized.filterMap Synthesized.function?

def stringEntry (symbol : Global) (value : String) : Entry :=
  .constant symbol [.verbatim (s!" = private unnamed_addr constant [{value.utf8ByteSize + 1} x i8] c\""
    ++ String.ofList (constantText value.toUTF8.toList) ++ "\\00\"")]

def metaEntry (symbol : Global) (name : String) : Entry :=
  .constant symbol
    [.verbatim " = constant %ember.meta \x7b ptr ", .reference (nameGlobal name), .verbatim " \x7d"]

def conformanceEntry (type protocol : String) : Entry :=
  .constant (conformanceGlobal type protocol)
    [.verbatim " = constant %ember.conformance \x7b ptr ", .reference (metaGlobal type),
      .verbatim ", ptr ", .reference (protocolGlobal protocol), .verbatim " \x7d"]

def operandPiece : Operand → Piece
  | .global g => .reference g
  | o => .verbatim o.text

def ConstantBox.entry (symbol : Global) (box : ConstantBox) : Entry :=
  .constant symbol
    [.verbatim " = private unnamed_addr constant %ember.box \x7b ptr ", operandPiece box.tag,
      .verbatim (", [4 x i64] ["
        ++ commaSeparated (box.words.toList.map fun w => s!"i64 {w.toInt64.toInt}") ++ "] \x7d")]

def ModuleState.constants (s : ModuleState) : List Entry :=
  (s.strings.zipIdx.map fun (value, i) => stringEntry (stringGlobal i) value)
    ++ (s.allMetas.map fun name => metaEntry (metaGlobal name) name)
    ++ ((sortedNames s.protocols).map fun name => metaEntry (protocolGlobal name) name)
    ++ ((sortedPairs s.conformances).map fun (type, protocol) => conformanceEntry type protocol)
    ++ (s.boxes.zipIdx.map fun (box, i) => box.entry (boxGlobal i))
    ++ (s.allNames.map fun name => stringEntry (nameGlobal name) name)

/-! ### Modules -/

/-- A module at the end of its generation, with the functions of its bodies. -/
structure Generated where
  refs : ModuleState
  functions : List FunctionDef

namespace Generated

def allFunctions (g : Generated) : List FunctionDef :=
  g.functions ++ g.refs.madeFunctions

def declarations (g : Generated) : List Entry :=
  runtimeEntries ++ g.refs.declared.map Declared.entry

def definitions (g : Generated) : List Entry :=
  g.allFunctions.map functionEntry ++ g.refs.constants

/-- All symbols that the module declares or defines, in the order of its text. -/
def symbols (g : Generated) : List Global :=
  (g.declarations ++ g.definitions).map Entry.symbol

def header (package triple : String) : List String :=
  ["; ModuleID = '" ++ package ++ "'", "source_filename = \"" ++ package ++ "\"",
      "target triple = \"" ++ triple ++ "\"", ""] ++ typeLines ++ [""]

def text (g : Generated) (package triple : String) : String :=
  unlines (header package triple) ++ String.join (g.declarations.map Entry.text) ++ "\n"
    ++ String.join (g.definitions.map Entry.text)

end Generated

/-! ### The text of entries -/

section Text

theorem text_constant (g : Global) (rest : List Piece) :
    (Entry.constant g rest).text = g.text ++ String.join (rest.map Piece.text) ++ "\n" :=
  rfl

theorem text_stringEntry (symbol : Global) (value : String) :
    (stringEntry symbol value).text = stringLine symbol value ++ "\n" := by
  simp only [stringEntry, text_constant, stringLine, List.map_cons, List.map_nil, String.join_cons,
    String.join_nil, Piece.text_verbatim, String.append_assoc, String.append_empty]

theorem text_metaEntry (symbol : Global) (name : String) :
    (metaEntry symbol name).text = metaLine symbol name ++ "\n" := by
  simp only [metaEntry, text_constant, metaLine, List.map_cons, List.map_nil, String.join_cons,
    String.join_nil, Piece.text_verbatim, Piece.text_reference, String.append_assoc,
    String.append_empty]

theorem text_conformanceEntry (type protocol : String) :
    (conformanceEntry type protocol).text = conformanceLine type protocol ++ "\n" := by
  simp only [conformanceEntry, text_constant, conformanceLine, List.map_cons, List.map_nil,
    String.join_cons, String.join_nil, Piece.text_verbatim, Piece.text_reference,
    String.append_assoc, String.append_empty]

theorem text_operandPiece (o : Operand) : (operandPiece o).text = o.text := by
  cases o <;> rfl

theorem text_boxEntry (symbol : Global) (box : ConstantBox) :
    (box.entry symbol).text = box.line symbol ++ "\n" := by
  simp only [ConstantBox.entry, text_constant, ConstantBox.line, List.map_cons, List.map_nil,
    String.join_cons, String.join_nil, Piece.text_verbatim, text_operandPiece, String.append_assoc,
    String.append_empty]

theorem text_declaredEntry (f : Declared) : f.entry.text = f.line ++ "\n" := by
  simp only [Declared.entry, Entry.text, Declared.line, String.append_assoc]

theorem text_functionEntry (f : FunctionDef) : (functionEntry f).text = f.text := by
  simp only [functionEntry, Entry.text, FunctionDef.text, String.append_assoc]

theorem text_runtimeEntries : runtimeEntries.map Entry.text = runtimeLines.map (· ++ "\n") := by
  decide

theorem text_constants (s : ModuleState) :
    s.constants.map Entry.text = s.constantLines.map (· ++ "\n") := by
  simp only [ModuleState.constants, ModuleState.constantLines, List.map_append, List.map_map,
    Function.comp_def, text_stringEntry, text_metaEntry, text_conformanceEntry, text_boxEntry]

def ModuleState.MakesFunctions (s : ModuleState) : Prop :=
  ∀ made ∈ s.synthesized, ∃ f, made = .function f

theorem ModuleState.MakesFunctions.text_synthesized {s : ModuleState} (h : s.MakesFunctions) :
    s.synthesized.map Synthesized.text = s.madeFunctions.map FunctionDef.text := by
  rw [ModuleState.madeFunctions, List.map_filterMap, ← List.filterMap_eq_map]
  refine List.filterMap_congr fun made hmade => ?_
  obtain ⟨f, rfl⟩ := h made hmade
  rfl

theorem Generated.text_eq (g : Generated) (h : g.refs.MakesFunctions) (package triple : String) :
    g.refs.text package triple g.functions = g.text package triple := by
  have hmap {α : Type} (l : List α) (f : α → Entry) (f' : α → String)
      (hf : ∀ a, (f a).text = f' a) : (l.map f).map Entry.text = l.map f' := by
    simp [hf]
  rw [ModuleState.text, h.text_synthesized, Generated.text]
  simp only [Generated.declarations, Generated.definitions, Generated.allFunctions, header, unlines,
    List.map_append, String.join_append, text_runtimeEntries, text_constants,
    hmap _ _ _ text_functionEntry, hmap _ _ _ text_declaredEntry, String.append_assoc]
  rw [List.map_map]
  rfl

end Text

/-! ### References and entries -/

section Lists

variable {α β : Type} [BEq α] [LawfulBEq α] (f : β → α)

theorem mem_foldl_insert {a : α} (l : List β) (init : List α) :
    a ∈ l.foldl (fun acc b => acc.insert (f b)) init ↔ a ∈ init ∨ ∃ b ∈ l, f b = a := by
  induction l generalizing init with
  | nil => simp
  | cons b l ih =>
    rw [List.foldl_cons, ih, List.mem_insert_iff, List.exists_mem_cons_iff, eq_comm (a := a)]
    tauto

theorem nodup_foldl_insert (l : List β) {init : List α} (h : init.Nodup) :
    (l.foldl (fun acc b => acc.insert (f b)) init).Nodup := by
  induction l generalizing init with
  | nil => exact h
  | cons b l ih => exact ih (h.insert)

end Lists

namespace ModuleState

variable {s : ModuleState} {x : String}

theorem mem_allMetas : x ∈ s.allMetas ↔ x ∈ s.metas ∨ ∃ c ∈ s.conformances, c.1 = x := by
  rw [allMetas, sortedNames, List.mem_mergeSort]
  exact mem_foldl_insert Prod.fst s.conformances s.metas

theorem mem_allNames : x ∈ s.allNames ↔ x ∈ s.allMetas ∨ x ∈ s.protocols := by
  rw [allNames, sortedNames, List.mem_mergeSort]
  exact (mem_foldl_insert id s.protocols s.allMetas).trans (by simp)

theorem nodup_allMetas (h : s.metas.Nodup) : s.allMetas.Nodup :=
  (List.mergeSort_perm _ _).nodup_iff.mpr (nodup_foldl_insert Prod.fst s.conformances h)

theorem nodup_allNames (h : s.metas.Nodup) : s.allNames.Nodup :=
  (List.mergeSort_perm _ _).nodup_iff.mpr (nodup_foldl_insert id s.protocols (nodup_allMetas h))

def constantSymbols (s : ModuleState) : List Symbol :=
  (List.range s.strings.length).map .string ++ s.allMetas.map .type
    ++ (sortedNames s.protocols).map .protocol
    ++ (sortedPairs s.conformances).map (fun c => .conformance c.1 c.2)
    ++ (List.range s.boxes.length).map .box ++ s.allNames.map .written

theorem map_symbol_constants (s : ModuleState) :
    s.constants.map Entry.symbol = s.constantSymbols.map Symbol.global := by
  have hindex {α : Type} (l : List α) (f : α → Nat → Entry) (f' : Nat → Global)
      (hf : ∀ a i, (f a i).symbol = f' i) :
      (l.zipIdx.map fun q => (f q.1 q.2).symbol) = (List.range l.length).map f' := by
    simp only [hf]
    rw [List.range_eq_range', ← List.zipIdx_map_snd 0 l, List.map_map]
    rfl
  have hstrings := hindex s.strings (fun a i => stringEntry (stringGlobal i) a) _ fun _ _ => rfl
  have hboxes := hindex s.boxes (fun a i => a.entry (boxGlobal i)) _ fun _ _ => rfl
  simp only [constants, constantSymbols, List.map_append, List.map_map, Function.comp_def, hstrings,
    hboxes]
  rfl

@[simp]
theorem mem_constantSymbols_string {i : Nat} :
    .string i ∈ s.constantSymbols ↔ i < s.strings.length := by
  simp [constantSymbols]

@[simp]
theorem mem_constantSymbols_box {i : Nat} : .box i ∈ s.constantSymbols ↔ i < s.boxes.length := by
  simp [constantSymbols]

@[simp]
theorem mem_constantSymbols_type : .type x ∈ s.constantSymbols ↔ x ∈ s.allMetas := by
  simp [constantSymbols]

@[simp]
theorem mem_constantSymbols_protocol : .protocol x ∈ s.constantSymbols ↔ x ∈ s.protocols := by
  simp [constantSymbols, sortedNames]

@[simp]
theorem mem_constantSymbols_conformance {t : String} :
    .conformance t x ∈ s.constantSymbols ↔ (t, x) ∈ s.conformances := by
  simp [constantSymbols, sortedPairs]

@[simp]
theorem mem_constantSymbols_written : .written x ∈ s.constantSymbols ↔ x ∈ s.allNames := by
  simp [constantSymbols]

end ModuleState

namespace Generated

variable {g : Generated}

theorem mem_symbols_of_runtime {x : String} (h : x ∈ runtimeNames) : ⟨x⟩ ∈ g.symbols := by
  simp only [symbols, declarations, List.map_append, List.mem_append, map_symbol_runtimeEntries]
  exact .inl (.inl (List.mem_map_of_mem h))

theorem mem_symbols_of_declared {f : Declared} (h : f ∈ g.refs.declared) : f.symbol ∈ g.symbols := by
  simp only [symbols, declarations, List.map_append, List.mem_append]
  exact .inl (.inr (List.mem_map_of_mem (List.mem_map_of_mem h)))

theorem mem_symbols_of_function {f : FunctionDef} (h : f ∈ g.allFunctions) :
    ⟨f.name⟩ ∈ g.symbols := by
  simp only [symbols, definitions, List.map_append, List.mem_append]
  exact .inr (.inl (List.mem_map_of_mem (List.mem_map_of_mem h)))

theorem mem_symbols_of_constant {s : Symbol} (h : s ∈ g.refs.constantSymbols) :
    s.global ∈ g.symbols := by
  simp only [symbols, definitions, List.map_append, List.mem_append, ModuleState.map_symbol_constants]
  exact .inr (.inr (List.mem_map_of_mem h))

end Generated

end Emit

end Boxlang
