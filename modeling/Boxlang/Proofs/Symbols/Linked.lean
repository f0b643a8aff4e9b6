import Boxlang.Proofs.Symbols.References

/-!
# Modules without clashes

While a module is generated, the names in what it refers to are plain and distinct, and
every closure and adapter that was given a number has its function, or is just being
generated (`ModuleState.Linked`).  So the symbols of the finished module are distinct.
-/

namespace Boxlang

open Llvm

structure Package.NamesApart (p : Package) : Prop where
  isWellNamed : ∀ id, (Emit.Symbol.function (p.signature id).qualifiedName).IsWellNamed
  notMem_runtimeNames : ∀ id, (p.signature id).qualifiedName ∉ Emit.runtimeNames

namespace Emit

/-! ### Numbers of closures and adapters -/

def Symbol.serial? : Symbol → Option (Nat ⊕ Nat)
  | .closure _ n => some (.inl n)
  | .adapter n => some (.inr n)
  | .function _ | .string _ | .box _ | .type _ | .protocol _ | .conformance _ _ | .written _ => none

def ModuleState.serials (s : ModuleState) : List (Nat ⊕ Nat) :=
  (List.range s.nextClosure).map .inl ++ (List.range s.nextAdapter).map .inr

/--
The functions are those of `made`, and together with the pending ones these have all the
numbers that were given out, each once.
-/
structure MadeAs (functions : List FunctionDef) (given : List (Nat ⊕ Nat))
    (made pending : List Symbol) : Prop where
  names : functions.map (fun f => ⟨f.name⟩) = made.map Symbol.global
  serials : ((made ++ pending).map Symbol.serial?).Perm (given.map some)

structure PlainNames (names : List String) : Prop where
  nodup : names.Nodup
  plain : ∀ x ∈ names, IsPlainName x

theorem PlainNames.insert {names : List String} {x : String} (h : PlainNames names)
    (hx : IsPlainName x) : PlainNames (names.insert x) where
  nodup := h.nodup.insert
  plain y hy := by
    rcases List.mem_insert_iff.mp hy with rfl | hy
    · exact hx
    · exact h.plain y hy

/-! ### Modules under construction -/

/--
The part of the finished module `g` that is noted so far: its names are plain and
distinct, its callees are called, what it mentions is known, and all closures and adapters
but the pending ones have their functions.
-/
structure ModuleState.Linked (p : Package) (g : Generated) (pending : List Symbol)
    (s : ModuleState) : Prop where
  metas : PlainNames s.metas
  protocols : PlainNames s.protocols
  conformances_nodup : s.conformances.Nodup
  conformances : ∀ c ∈ s.conformances, IsPlainName c.1 ∧ c.2 ∈ s.protocols
  boxes : ∀ b ∈ s.boxes, g.Knows b.tag
  callees_nodup : (s.callees.map (·.symbol)).Nodup
  callees : ∀ f ∈ s.callees, g.Calls f.symbol ∧ ∃ id, f.symbol = ⟨(p.signature id).qualifiedName⟩
  functions : ∀ made ∈ s.synthesized, ∃ f, made = .function f ∧ g.Resolves f
  exists_made : ∃ made, MadeAs s.madeFunctions s.serials made pending

namespace ModuleState.Linked

variable {p : Package} {g : Generated} {pending : List Symbol} {s : ModuleState}

theorem empty (p : Package) (g : Generated) : ModuleState.Linked p g [] {} where
  metas := ⟨List.nodup_nil, by simp⟩
  protocols := ⟨List.nodup_nil, by simp⟩
  conformances_nodup := List.nodup_nil
  conformances := by simp
  boxes := by simp
  callees_nodup := List.nodup_nil
  callees := by simp
  functions := by simp
  exists_made := ⟨[], rfl, List.Perm.refl _⟩

variable (h : s.Linked p g pending)
include h

theorem insert_meta {x : String} (hx : IsPlainName x) :
    ModuleState.Linked p g pending { s with metas := s.metas.insert x } :=
  { h with metas := h.metas.insert hx }

theorem insert_protocol {x : String} (hx : IsPlainName x) :
    ModuleState.Linked p g pending { s with protocols := s.protocols.insert x } :=
  { h with
    protocols := h.protocols.insert hx
    conformances := fun c hc =>
      ⟨(h.conformances c hc).1, List.mem_insert_of_mem (h.conformances c hc).2⟩ }

theorem insert_conformance {t x : String} (ht : IsPlainName t) (hx : x ∈ s.protocols) :
    ModuleState.Linked p g pending { s with conformances := s.conformances.insert (t, x) } :=
  { h with
    conformances_nodup := h.conformances_nodup.insert
    conformances := fun c hc => by
      rcases List.mem_insert_iff.mp hc with rfl | hc
      · exact ⟨ht, hx⟩
      · exact h.conformances c hc }

theorem add_box {b : ConstantBox} (hb : g.Knows b.tag) :
    ModuleState.Linked p g pending { s with boxes := s.boxes ++ [b] } :=
  { h with
    boxes := fun b' hb' => by
      rcases List.mem_append.mp hb' with hb' | hb'
      · exact h.boxes b' hb'
      · rwa [List.mem_singleton.mp hb'] }

theorem add_callee {f : Declared} (hnew : f.symbol ∉ s.callees.map (·.symbol))
    (hcalled : g.Calls f.symbol) (hname : ∃ id, f.symbol = ⟨(p.signature id).qualifiedName⟩) :
    ModuleState.Linked p g pending { s with callees := s.callees ++ [f] } :=
  { h with
    callees_nodup := by
      rw [List.map_append]
      exact h.callees_nodup.append (List.nodup_singleton _) (by simpa using hnew)
    callees := fun f' hf' => by
      rcases List.mem_append.mp hf' with hf' | hf'
      · exact h.callees f' hf'
      · rw [List.mem_singleton.mp hf']
        exact ⟨hcalled, hname⟩ }

theorem next_closure (enclosing : String) :
    ModuleState.Linked p g (.closure enclosing s.nextClosure :: pending)
      { s with nextClosure := s.nextClosure + 1 } :=
  { h with
    exists_made := by
      obtain ⟨made, hnames, hserials⟩ := h.exists_made
      refine ⟨made, hnames, ?_⟩
      simp only [ModuleState.serials, List.range_succ, List.map_append, List.map_cons, List.map_nil,
        List.append_assoc] at hserials ⊢
      refine List.perm_middle.trans (List.Perm.trans ?_ List.perm_middle.symm)
      exact hserials.cons _ }

theorem next_adapter :
    ModuleState.Linked p g (.adapter s.nextAdapter :: pending)
      { s with nextAdapter := s.nextAdapter + 1 } :=
  { h with
    exists_made := by
      obtain ⟨made, hnames, hserials⟩ := h.exists_made
      refine ⟨made, hnames, ?_⟩
      simp only [ModuleState.serials, List.range_succ, List.map_append, List.map_cons, List.map_nil]
        at hserials ⊢
      rw [← List.append_assoc]
      refine List.perm_middle.trans ((hserials.cons _).trans ?_)
      exact (List.perm_append_singleton _ _).symm }

omit h in
theorem push {origin : Symbol} (h : s.Linked p g (origin :: pending)) {f : FunctionDef}
    (hname : ⟨f.name⟩ = origin.global) (hf : g.Resolves f) :
    ModuleState.Linked p g pending { s with synthesized := s.synthesized ++ [.function f] } :=
  { h with
    functions := fun made hmade => by
      rcases List.mem_append.mp hmade with hmade | hmade
      · exact h.functions made hmade
      · exact ⟨f, List.mem_singleton.mp hmade, hf⟩
    exists_made := by
      obtain ⟨made, hnames, hserials⟩ := h.exists_made
      refine ⟨made ++ [origin], ?_, ?_⟩
      · simp only [ModuleState.madeFunctions, List.filterMap_append, List.map_append] at hnames ⊢
        rw [hnames]
        simp [Synthesized.function?, hname]
      · rwa [List.append_assoc, List.singleton_append] }

end ModuleState.Linked

/-! ### Distinct symbols -/

namespace ModuleState

variable {s : ModuleState}

theorem nodup_constantSymbols (hmetas : s.metas.Nodup) (hprotocols : s.protocols.Nodup)
    (hconformances : s.conformances.Nodup) : s.constantSymbols.Nodup := by
  have hsorted : (sortedNames s.protocols).Nodup := (List.mergeSort_perm _ _).nodup_iff.mpr hprotocols
  have hpairs : (sortedPairs s.conformances).Nodup :=
    (List.mergeSort_perm _ _).nodup_iff.mpr hconformances
  have hstrings : ((List.range s.strings.length).map Symbol.string).Nodup :=
    List.nodup_range.map fun _ _ => Symbol.string.inj
  have hboxes : ((List.range s.boxes.length).map Symbol.box).Nodup :=
    List.nodup_range.map fun _ _ => Symbol.box.inj
  have htypes : (s.allMetas.map Symbol.type).Nodup :=
    (nodup_allMetas hmetas).map fun _ _ => Symbol.type.inj
  have hwritten : (s.allNames.map Symbol.written).Nodup :=
    (nodup_allNames hmetas).map fun _ _ => Symbol.written.inj
  have hprotocolSymbols : ((sortedNames s.protocols).map Symbol.protocol).Nodup :=
    hsorted.map fun _ _ => Symbol.protocol.inj
  have hconformanceSymbols :
      ((sortedPairs s.conformances).map fun c => Symbol.conformance c.1 c.2).Nodup :=
    hpairs.map fun _ _ heq => Prod.ext (Symbol.conformance.inj heq).1 (Symbol.conformance.inj heq).2
  simp only [constantSymbols, List.nodup_append, hstrings, hboxes, htypes, hwritten,
    hprotocolSymbols, hconformanceSymbols]
  simp only [List.mem_append, List.mem_map]
  grind

theorem Linked.isWellNamed {p : Package} {g : Generated} {pending : List Symbol}
    (h : s.Linked p g pending) {x : Symbol} (hx : x ∈ s.constantSymbols) : x.IsWellNamed := by
  have hmeta (t : String) (ht : t ∈ s.allMetas) : IsPlainName t := by
    rcases mem_allMetas.mp ht with ht | ⟨c, hc, rfl⟩
    · exact h.metas.plain t ht
    · exact (h.conformances c hc).1
  cases x with
  | function x => simp [constantSymbols] at hx
  | closure e n => trivial
  | adapter n => trivial
  | string i => trivial
  | box i => trivial
  | type t => exact hmeta t (by simpa using hx)
  | protocol x => exact h.protocols.plain x (by simpa using hx)
  | conformance t x =>
    have hc := h.conformances (t, x) (by simpa using hx)
    exact ⟨hc.1, h.protocols.plain x hc.2⟩
  | written x =>
    rcases mem_allNames.mp (mem_constantSymbols_written.mp hx) with hx | hx
    · exact hmeta x hx
    · exact h.protocols.plain x hx

theorem nodup_serials (s : ModuleState) : s.serials.Nodup := by
  refine (List.nodup_range.map fun _ _ => Sum.inl.inj).append
    (List.nodup_range.map fun _ _ => Sum.inr.inj) ?_
  simp [List.Disjoint]

end ModuleState

theorem isWellNamed_runtime {x : String} (h : x ∈ runtimeNames) :
    (Symbol.function x).IsWellNamed := by
  have bare {y : String} (hy : IsPlainName y) : (Symbol.function y).IsWellNamed :=
    ⟨y, [], nameParts_of_notMem hy.1, hy, by decide, by decide⟩
  simp only [runtimeNames, emberNames, List.cons_append, List.nil_append, List.mem_cons,
    List.not_mem_nil, or_false] at h
  rcases h with rfl | rfl | rfl | rfl | rfl | rfl
  case inr.inr.inr.inr.inr =>
    exact ⟨"i64", ["p0".toList, "p0".toList, "memcpy".toList, "llvm".toList], by decide, by decide,
      by decide, by decide⟩
  all_goals exact bare (by decide)

section Made

variable {functions : List FunctionDef} {given : List (Nat ⊕ Nat)} {made : List Symbol}

theorem MadeAs.nodup (h : MadeAs functions given made []) (hgiven : given.Nodup) : made.Nodup := by
  have hserials := h.serials
  rw [List.append_nil] at hserials
  exact .of_map _ (hserials.nodup_iff.mpr (hgiven.map (Option.some_injective _)))

theorem MadeAs.exists_serial (h : MadeAs functions given made []) {s : Symbol} (hs : s ∈ made) :
    ∃ n ∈ given, s.serial? = some n := by
  have hmem : s.serial? ∈ (made ++ []).map Symbol.serial? :=
    List.mem_map_of_mem (List.mem_append_left _ hs)
  obtain ⟨n, hn, heq⟩ := List.mem_map.mp (h.serials.mem_iff.mp hmem)
  exact ⟨n, hn, heq.symm⟩

theorem MadeAs.exists_function (h : MadeAs functions given made []) {n : Nat ⊕ Nat}
    (hn : n ∈ given) : ∃ s : Symbol, s.serial? = some n ∧ ∃ f ∈ functions, ⟨f.name⟩ = s.global := by
  have hmem : some n ∈ (made ++ []).map Symbol.serial? :=
    h.serials.mem_iff.mpr (List.mem_map_of_mem hn)
  rw [List.append_nil] at hmem
  obtain ⟨s, hs, heq⟩ := List.mem_map.mp hmem
  have hglobal : s.global ∈ functions.map fun f => (⟨f.name⟩ : Global) :=
    h.names ▸ List.mem_map_of_mem hs
  exact ⟨s, heq, List.mem_map.mp hglobal⟩

theorem Symbol.isWellNamed_of_serial? {s : Symbol} {n : Nat ⊕ Nat} (h : s.serial? = some n) :
    s.IsWellNamed := by
  cases s <;> trivial

end Made

namespace Generated

variable {p : Package} {g : Generated}

/-- The functions that stand for themselves: those of the run-time library and of the package. -/
def functionNames (g : Generated) : List String :=
  runtimeNames ++ g.refs.declared.map (·.symbol.name) ++ g.functions.map (·.name)

/-- The functions of bodies bear names of the package, distinct ones, and were noted. -/
structure Defines (g : Generated) (p : Package) : Prop where
  names_nodup : (g.functions.map (·.name)).Nodup
  exists_id : ∀ f ∈ g.functions, ∃ id, f.name = (p.signature id).qualifiedName
  defined : ∀ f ∈ g.functions, ⟨f.name⟩ ∈ g.refs.defined

theorem exists_callee_of_declared {s : ModuleState} {f : Declared} (h : f ∈ s.declared) :
    f ∈ s.callees ∧ f.symbol ∉ s.defined := by
  simpa [ModuleState.declared] using h

section Distinct

variable (hlinked : g.refs.Linked p g []) (hdefines : g.Defines p) (hnames : p.NamesApart)
include hlinked hdefines hnames

theorem nodup_functionNames : g.functionNames.Nodup := by
  have hdeclared (x : String) (hx : x ∈ g.refs.declared.map (·.symbol.name)) :
      ⟨x⟩ ∉ g.refs.defined ∧ ∃ id, x = (p.signature id).qualifiedName := by
    obtain ⟨f, hf, rfl⟩ := List.mem_map.mp hx
    obtain ⟨hcallee, hnot⟩ := exists_callee_of_declared hf
    obtain ⟨id, hid⟩ := (hlinked.callees f hcallee).2
    exact ⟨hnot, id, congrArg Global.name hid⟩
  have hnodup : (g.refs.declared.map (·.symbol.name)).Nodup := by
    have hcallees : (g.refs.callees.map (·.symbol.name)).Nodup := by
      have hnames := hlinked.callees_nodup.map (f := Global.name) fun _ _ => congrArg Global.mk
      rwa [List.map_map] at hnames
    have hperm : g.refs.declared.Perm _ := List.mergeSort_perm _ _
    exact (hperm.map _).nodup_iff.mpr (hcallees.sublist (List.filter_sublist.map _))
  refine List.Nodup.append (.append (by decide) hnodup ?_) hdefines.names_nodup ?_
  · intro x hruntime hx
    obtain ⟨-, id, rfl⟩ := hdeclared x hx
    exact hnames.notMem_runtimeNames id hruntime
  · intro x hx hfunction
    obtain ⟨f, hf, rfl⟩ := List.mem_map.mp hfunction
    rcases List.mem_append.mp hx with hruntime | hx
    · obtain ⟨id, hid⟩ := hdefines.exists_id f hf
      exact hnames.notMem_runtimeNames id (hid ▸ hruntime)
    · exact (hdeclared _ hx).1 (hdefines.defined f hf)

theorem isWellNamed_of_mem_functionNames {x : String} (hx : x ∈ g.functionNames) :
    (Symbol.function x).IsWellNamed := by
  simp only [functionNames, List.mem_append] at hx
  rcases hx with (hx | hx) | hx
  · exact isWellNamed_runtime hx
  · obtain ⟨f, hf, rfl⟩ := List.mem_map.mp hx
    obtain ⟨id, hid⟩ := (hlinked.callees f (exists_callee_of_declared hf).1).2
    rw [hid]
    exact hnames.isWellNamed id
  · obtain ⟨f, hf, rfl⟩ := List.mem_map.mp hx
    obtain ⟨id, hid⟩ := hdefines.exists_id f hf
    rw [hid]
    exact hnames.isWellNamed id

theorem nodup_symbols : g.symbols.Nodup := by
  obtain ⟨made, hmade⟩ := hlinked.exists_made
  let all := g.functionNames.map Symbol.function ++ made ++ g.refs.constantSymbols
  have heq : g.symbols = all.map Symbol.global := by
    have hfunctions : g.refs.madeFunctions.map (fun f => (functionEntry f).symbol) = _ := hmade.names
    simp only [symbols, declarations, definitions, allFunctions, all, functionNames,
      List.map_append, List.map_map, map_symbol_runtimeEntries, ModuleState.map_symbol_constants,
      Function.comp_def, hfunctions, List.append_assoc]
    rfl
  have hwell (s : Symbol) (hs : s ∈ all) : s.IsWellNamed := by
    simp only [all, List.mem_append] at hs
    rcases hs with (hs | hs) | hs
    · obtain ⟨x, hx, rfl⟩ := List.mem_map.mp hs
      exact isWellNamed_of_mem_functionNames hlinked hdefines hnames hx
    · obtain ⟨n, -, hn⟩ := hmade.exists_serial hs
      exact Symbol.isWellNamed_of_serial? hn
    · exact hlinked.isWellNamed hs
  have hnodup : all.Nodup := by
    refine List.Nodup.append (.append ?_ (hmade.nodup g.refs.nodup_serials) ?_)
      (ModuleState.nodup_constantSymbols hlinked.metas.nodup hlinked.protocols.nodup
        hlinked.conformances_nodup) ?_
    · exact (nodup_functionNames hlinked hdefines hnames).map fun _ _ => Symbol.function.inj
    · intro s hs hs'
      obtain ⟨x, -, rfl⟩ := List.mem_map.mp hs
      obtain ⟨n, -, hn⟩ := hmade.exists_serial hs'
      cases hn
    · intro s hs hs'
      rcases List.mem_append.mp hs with hs | hs
      · obtain ⟨x, -, rfl⟩ := List.mem_map.mp hs
        simp [ModuleState.constantSymbols] at hs'
      · obtain ⟨n, -, hn⟩ := hmade.exists_serial hs
        cases s <;> cases hn <;> simp [ModuleState.constantSymbols] at hs'
  rw [heq]
  exact hnodup.map_on fun s hs s' hs' => Symbol.eq_of_global_eq (hwell s hs) (hwell s' hs')

end Distinct

theorem mentions_mem_symbols (h : g.refs.Linked p g []) {e : Entry} (he : e ∈ g.definitions)
    {x : Global} (hx : x ∈ e.mentions) : x ∈ g.symbols := by
  have hwritten {name : String} (hname : name ∈ g.refs.allNames) : nameGlobal name ∈ g.symbols :=
    mem_symbols_of_constant (s := .written name) (by simpa using hname)
  have hmeta {symbol : Global} {name : String} (hname : name ∈ g.refs.allNames)
      (hx : x ∈ (metaEntry symbol name).mentions) : x ∈ g.symbols := by
    obtain rfl : nameGlobal name = x := by
      simpa [Entry.mentions, metaEntry, Piece.symbol?] using hx
    exact hwritten hname
  rcases List.mem_append.mp he with he | he
  · obtain ⟨f, -, rfl⟩ := List.mem_map.mp he
    cases hx
  · simp only [ModuleState.constants, List.mem_append] at he
    rcases he with ((((he | he) | he) | he) | he) | he
    · obtain ⟨⟨value, i⟩, -, rfl⟩ := List.mem_map.mp he
      cases hx
    · obtain ⟨name, hname, rfl⟩ := List.mem_map.mp he
      exact hmeta (ModuleState.mem_allNames.mpr (.inl hname)) hx
    · obtain ⟨name, hname, rfl⟩ := List.mem_map.mp he
      exact hmeta (ModuleState.mem_allNames.mpr (.inr (List.mem_mergeSort.mp hname))) hx
    · obtain ⟨⟨t, name⟩, hc, rfl⟩ := List.mem_map.mp he
      replace hc : (t, name) ∈ g.refs.conformances := List.mem_mergeSort.mp hc
      have hx : metaGlobal t = x ∨ protocolGlobal name = x := by
        simpa [Entry.mentions, conformanceEntry, Piece.symbol?] using hx
      rcases hx with rfl | rfl
      · refine mem_symbols_of_constant (s := .type t) ?_
        rw [ModuleState.mem_constantSymbols_type, ModuleState.mem_allMetas]
        exact .inr ⟨_, hc, rfl⟩
      · exact mem_symbols_of_constant (s := .protocol name)
          (by simpa using (h.conformances _ hc).2)
    · obtain ⟨⟨box, i⟩, hbox, rfl⟩ := List.mem_map.mp he
      have hknown := h.boxes box (List.fst_mem_of_mem_zipIdx hbox)
      have hx : (operandPiece box.tag).symbol? = some x := by
        simpa [Entry.mentions, ConstantBox.entry, Piece.symbol?, eq_comm] using hx
      cases htag : box.tag with
      | global y =>
        rw [htag] at hx hknown
        cases hx
        exact hknown
      | _ =>
        rw [htag] at hx
        cases hx
    · obtain ⟨name, -, rfl⟩ := List.mem_map.mp he
      cases hx

end Generated

end Emit

end Boxlang
