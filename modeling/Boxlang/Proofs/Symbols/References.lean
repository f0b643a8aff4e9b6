import Boxlang.Proofs.Symbols.Module
import Boxlang.Proofs.Symbols.Types

/-!
# References to symbols

What a module refers to only grows while it is generated (`ModuleState.Within`).  A step
that hands out a symbol notes what the symbol stands for, so a finished module that has
all that was noted has the symbol, too (`HandsOut.mem_symbols`).  The names in what is
noted are plain and distinct, and closures and adapters are numbered, so no two symbols
of a finished module have the same name (`ModuleState.Linked`).
-/

namespace Boxlang

open Llvm

def Ty.metaName (t : Ty) : String :=
  if t.isCallable then Emit.callableTypeName else t.erased.text

theorem Ty.IsPlain.isPlainName_erased {t : Ty} (h : t.IsPlain) : IsPlainName t.erased.text :=
  isPlainName_text _ (pervasive_isPlain.erased h)

theorem Ty.IsPlain.isPlainName_metaName {t : Ty} (h : t.IsPlain) : IsPlainName t.metaName := by
  unfold metaName
  split
  · decide
  · exact h.isPlainName_erased

namespace Emit

/-! ### Finished modules -/

namespace Generated

/-- All functions that were noted to have a body are among those of the module. -/
def Covers (g : Generated) : Prop :=
  ∀ x ∈ g.refs.defined, ∃ f ∈ g.functions, x = ⟨f.name⟩

def code (g : Generated) : List Instr :=
  g.allFunctions.flatMap FunctionDef.code

def Calls (g : Generated) (x : Global) : Prop :=
  ∃ i ∈ g.code, i.callee? = some (.global x)

/-- The operand may stand in code of the module: a global one is declared or defined there. -/
def Knows (g : Generated) : Operand → Prop
  | .global x => x ∈ g.symbols
  | .none | .register _ | .param _ | .receiver | .context | .null | .undef | .zero | .int _
  | .bool _ | .real _ => True

/-- The function uses no operands but those that may stand in code of the module. -/
structure Resolves (g : Generated) (f : FunctionDef) : Prop where
  code : ∀ i ∈ f.code, ∀ o ∈ i.operands, g.Knows o
  exits : ∀ exit ∈ f.exits, ∀ o ∈ exit.uses, g.Knows o

theorem code_subset {g : Generated} {f : FunctionDef} (h : f ∈ g.allFunctions) :
    f.code ⊆ g.code :=
  fun _ hi => List.mem_flatMap.mpr ⟨f, h, hi⟩

end Generated

/-! ### More references -/

namespace ModuleState

/-- All that is noted in `s` is noted in `s'`. -/
structure Within (s s' : ModuleState) : Prop where
  metas : s.metas ⊆ s'.metas
  protocols : s.protocols ⊆ s'.protocols
  conformances : s.conformances ⊆ s'.conformances
  strings : s.strings <+: s'.strings
  boxes : s.boxes <+: s'.boxes
  synthesized : s.synthesized ⊆ s'.synthesized
  callees : s.callees ⊆ s'.callees
  defined : s.defined ⊆ s'.defined
  nextClosure : s.nextClosure ≤ s'.nextClosure
  nextAdapter : s.nextAdapter ≤ s'.nextAdapter

variable {s s' s'' : ModuleState}

theorem Within.refl (s : ModuleState) : s.Within s :=
  ⟨List.Subset.refl _, List.Subset.refl _, List.Subset.refl _, List.prefix_rfl, List.prefix_rfl,
    List.Subset.refl _, List.Subset.refl _, List.Subset.refl _, Nat.le_refl _, Nat.le_refl _⟩

theorem Within.trans (h : s.Within s') (h' : s'.Within s'') : s.Within s'' where
  metas := List.Subset.trans h.metas h'.metas
  protocols := List.Subset.trans h.protocols h'.protocols
  conformances := List.Subset.trans h.conformances h'.conformances
  strings := h.strings.trans h'.strings
  boxes := h.boxes.trans h'.boxes
  synthesized := List.Subset.trans h.synthesized h'.synthesized
  callees := List.Subset.trans h.callees h'.callees
  defined := List.Subset.trans h.defined h'.defined
  nextClosure := h.nextClosure.trans h'.nextClosure
  nextAdapter := h.nextAdapter.trans h'.nextAdapter

end ModuleState

section Within

variable (s : ModuleState)

theorem within_callableMeta : s.Within (callableMeta.run s).2 :=
  { ModuleState.Within.refl s with metas := List.subset_insert _ _ }

theorem run_metaSymbol (t : Ty) : (metaSymbol t).run s =
    (metaGlobal t.metaName, { s with metas := s.metas.insert t.metaName }) := by
  unfold metaSymbol Ty.metaName
  split <;> rfl

theorem within_metaSymbol (t : Ty) : s.Within ((metaSymbol t).run s).2 := by
  rw [run_metaSymbol]
  exact { ModuleState.Within.refl s with metas := List.subset_insert _ _ }

theorem within_protocolSymbol (protocol : String) : s.Within ((protocolSymbol protocol).run s).2 :=
  { ModuleState.Within.refl s with protocols := List.subset_insert _ _ }

theorem within_conformanceSymbol (t : Ty) (protocol : String) :
    s.Within ((conformanceSymbol t protocol).run s).2 :=
  { ModuleState.Within.refl s with
    protocols := List.subset_insert _ _
    conformances := fun _ hc => List.mem_insert_of_mem hc }

theorem run_internString (value : String) : (internString value).run s =
    match s.strings.findIdx? (· == value) with
    | some i => (stringGlobal i, s)
    | none => (stringGlobal s.strings.length, { s with strings := s.strings ++ [value] }) :=
  rfl

theorem within_internString (value : String) : s.Within ((internString value).run s).2 := by
  rw [run_internString]
  split
  · exact .refl s
  · exact { ModuleState.Within.refl s with strings := List.prefix_append _ _ }

theorem within_constantBox (tag : Operand) (image : BoxImage) :
    s.Within ((constantBox tag image).run s).2 :=
  { ModuleState.Within.refl s with boxes := List.prefix_append _ _ }

theorem run_functionSymbol (d : Declarations) (f : Signature) : (functionSymbol d f).run s =
    ((declarationOf d f).symbol,
      if s.callees.any (·.symbol == (declarationOf d f).symbol) then s
      else { s with callees := s.callees ++ [declarationOf d f] }) :=
  rfl

theorem within_functionSymbol (d : Declarations) (f : Signature) :
    s.Within ((functionSymbol d f).run s).2 := by
  rw [run_functionSymbol]
  dsimp only
  split
  · exact .refl s
  · exact { ModuleState.Within.refl s with callees := List.subset_append_left _ _ }

theorem within_nextClosureName (enclosing : String) :
    s.Within ((nextClosureName enclosing).run s).2 :=
  { ModuleState.Within.refl s with nextClosure := Nat.le_succ _ }

theorem within_nextAdapterName : s.Within (nextAdapterName.run s).2 :=
  { ModuleState.Within.refl s with nextAdapter := Nat.le_succ _ }

theorem within_pushFunction (made : Synthesized) : s.Within ((pushFunction made).run s).2 :=
  { ModuleState.Within.refl s with synthesized := List.subset_append_left _ _ }

theorem within_noteDefined (name : String) : s.Within ((noteDefined name).run s).2 :=
  { ModuleState.Within.refl s with defined := List.subset_insert _ _ }

end Within

/-! ### Symbols that are handed out -/

/-- The steps that hand out a symbol, other than the names of closures and adapters. -/
inductive HandsOut : ModuleM Global → Prop where
  | function (d : Declarations) (f : Signature) : HandsOut (functionSymbol d f)
  | callable : HandsOut callableMeta
  | type (t : Ty) : HandsOut (metaSymbol t)
  | protocol (name : String) : HandsOut (protocolSymbol name)
  | conformance (t : Ty) (name : String) : HandsOut (conformanceSymbol t name)
  | string (value : String) : HandsOut (internString value)
  | box (tag : Operand) (image : BoxImage) : HandsOut (constantBox tag image)

namespace Generated

variable {g : Generated} {x : String}

theorem metaGlobal_mem_symbols (h : x ∈ g.refs.metas) : metaGlobal x ∈ g.symbols :=
  mem_symbols_of_constant (s := .type x) (by simp [ModuleState.mem_allMetas, h])

theorem stringGlobal_mem_symbols {i : Nat} (h : i < g.refs.strings.length) :
    stringGlobal i ∈ g.symbols :=
  mem_symbols_of_constant (s := .string i) (by simpa using h)

theorem callee_mem_symbols (hg : g.Covers) {f : Declared} (h : f ∈ g.refs.callees) :
    f.symbol ∈ g.symbols := by
  by_cases hdefined : f.symbol ∈ g.refs.defined
  · obtain ⟨f', hf', heq⟩ := hg _ hdefined
    rw [heq]
    exact mem_symbols_of_function (List.mem_append_left _ hf')
  · exact mem_symbols_of_declared (by simp [ModuleState.declared, h, hdefined])

end Generated

theorem exists_callee_functionSymbol (s : ModuleState) (d : Declarations) (f : Signature) :
    ∃ c ∈ ((functionSymbol d f).run s).2.callees, c.symbol = (declarationOf d f).symbol := by
  rw [run_functionSymbol]
  dsimp only
  split
  next hany =>
    obtain ⟨c, hc, heq⟩ := List.any_eq_true.mp hany
    exact ⟨c, hc, by simpa using heq⟩
  next => exact ⟨declarationOf d f, by simp, rfl⟩

theorem HandsOut.mem_symbols {step : ModuleM Global} (h : HandsOut step) {g : Generated}
    (hg : g.Covers) {s : ModuleState} (hs : (step.run s).2.Within g.refs) :
    (step.run s).1 ∈ g.symbols := by
  cases h with
  | function d f =>
    obtain ⟨c, hc, heq⟩ := exists_callee_functionSymbol s d f
    show (declarationOf d f).symbol ∈ g.symbols
    rw [← heq]
    exact g.callee_mem_symbols hg (hs.callees hc)
  | callable => exact g.metaGlobal_mem_symbols (hs.metas List.mem_insert_self)
  | type t =>
    rw [run_metaSymbol] at hs ⊢
    exact g.metaGlobal_mem_symbols (hs.metas List.mem_insert_self)
  | protocol name =>
    exact Generated.mem_symbols_of_constant (s := .protocol name)
      (by simpa using hs.protocols List.mem_insert_self)
  | conformance t name =>
    exact Generated.mem_symbols_of_constant (s := .conformance t.erased.text name)
      (by simpa using hs.conformances List.mem_insert_self)
  | string value =>
    rw [run_internString] at hs ⊢
    split at hs
    next i hi =>
      have hlt := (List.findIdx?_eq_some_iff_getElem.mp hi).1
      exact g.stringGlobal_mem_symbols (Nat.lt_of_lt_of_le hlt hs.strings.length_le)
    next =>
      refine g.stringGlobal_mem_symbols (Nat.lt_of_lt_of_le ?_ hs.strings.length_le)
      simp
  | box tag image =>
    refine Generated.mem_symbols_of_constant (s := .box s.boxes.length) ?_
    rw [ModuleState.mem_constantSymbols_box]
    refine Nat.lt_of_lt_of_le ?_ hs.boxes.length_le
    show s.boxes.length < (s.boxes ++ [_]).length
    simp

end Emit

end Boxlang
