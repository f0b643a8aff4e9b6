import Boxlang.Proofs.Emit.Package
import Boxlang.Proofs.Symbols.Discipline

/-!
# Modules of packages are closed

In a package whose names are plain, with distinct qualified names of functions, the module
of analysed bodies declares or defines each of its symbols once, and all that it refers
to (`Package.isClosed_of_run`).  No more is asked of the bodies than that what was in them before
analysis has plain names, not even that analysis found no errors: it suffices that they can be
generated.
-/

namespace Boxlang

open Emit Llvm

namespace Emit.Generated

/-- Nothing in the module is missing, and nothing is there twice. -/
structure IsClosed (g : Generated) : Prop where
  /-- No symbol is declared or defined twice, as it is written. -/
  nodup : (g.symbols.map Global.text).Nodup
  /-- All that the code of functions refers to is declared or defined. -/
  resolves : ∀ f ∈ g.allFunctions, g.Resolves f
  /-- All that constants refer to is declared or defined. -/
  mentions : ∀ e ∈ g.definitions, ∀ x ∈ e.mentions, x ∈ g.symbols
  /-- What a step handed out whose notes are in the module is declared or defined. -/
  handedOut : ∀ step, HandsOut step → ∀ s : ModuleState, (step.run s).2.Within g.refs →
    (step.run s).1 ∈ g.symbols
  /-- Every number that was given to a closure or an adapter is that of a function. -/
  numbered : ∀ n ∈ g.refs.serials, ∃ s : Symbol, s.serial? = some n ∧
    ∃ f ∈ g.allFunctions, ⟨f.name⟩ = s.global
  /-- A package function is declared only if it is called and has no body in the module. -/
  declared : ∀ f ∈ g.refs.declared, g.Calls f.symbol ∧ ∀ f' ∈ g.allFunctions, ⟨f'.name⟩ ≠ f.symbol

end Emit.Generated

namespace Package

variable {p : Package}

/-! ### Names of functions -/

/-- The names in a package are plain, and those of its functions are distinct and not of the run-time library. -/
structure HasPlainNames (p : Package) : Prop where
  isPlain : p.IsPlain
  functions : ∀ f ∈ p.functions, IsPlainName f.name
  nodup : (p.functions.map Signature.qualifiedName).Nodup
  notMem_emberNames : ∀ f ∈ p.functions, f.qualifiedName ∉ emberNames

theorem nameParts_qualifiedName {f : Signature} (hname : IsPlainName f.name)
    (howner : ∀ t ∈ f.owner?, t.IsPlain) :
    ∃ parts, nameParts f.qualifiedName = f.name.toList :: parts ∧ parts.length ≤ 1 := by
  unfold Signature.qualifiedName
  split
  next owner heq =>
    have hplain := Ty.isPlainName_text owner (howner owner heq)
    exact ⟨[owner.text.toList], by
      rw [nameParts_append, nameParts_of_notMem hname.1, nameParts_of_notMem hplain.1]
      rfl, le_refl _⟩
  next => exact ⟨[], nameParts_of_notMem hname.1, Nat.zero_le _⟩

theorem HasPlainNames.namesApart (h : p.HasPlainNames) : p.NamesApart := by
  have hcases (id : FunctionId) :
      IsPlainName (p.signature id).name ∧ (p.signature id).qualifiedName ∉ emberNames := by
    rcases p.signature_cases id with hmem | heq
    · exact ⟨h.functions _ hmem, h.notMem_emberNames _ hmem⟩
    · rw [heq]
      decide
  refine ⟨fun id => ?_, fun id hid => ?_⟩
  · obtain ⟨parts, hparts, hle⟩ := nameParts_qualifiedName (hcases id).1 (h.isPlain.owner id)
    exact ⟨_, parts, hparts, (hcases id).1, by omega, by omega⟩
  · obtain ⟨parts, hparts, hle⟩ := nameParts_qualifiedName (hcases id).1 (h.isPlain.owner id)
    rcases List.mem_append.mp hid with hid | hid
    · exact (hcases id).2 hid
    · rw [List.mem_singleton.mp hid] at hparts
      have hlength : (nameParts "llvm.memcpy.p0.p0.i64").length = 5 := by decide
      rw [hparts, List.length_cons] at hlength
      omega

theorem HasPlainNames.eq_of_qualifiedName_eq (h : p.HasPlainNames) {id id' : FunctionId}
    (hid : id < p.functions.length) (hid' : id' < p.functions.length)
    (heq : (p.signature id).qualifiedName = (p.signature id').qualifiedName) : id = id' := by
  have hget {i : FunctionId} (hi : i < p.functions.length) :
      (p.functions.map Signature.qualifiedName)[i]? = some (p.signature i).qualifiedName := by
    rw [List.getElem?_map, List.getElem?_eq_getElem hi, signature, List.getD_eq_getElem?_getD,
      List.getElem?_eq_getElem hi, Option.getD_some, Option.map_some]
  refine (List.getElem?_inj (by simpa using hid) h.nodup).mp ?_
  rw [hget hid, hget hid', heq]

/-! ### Definitions -/

/--
The body of a function as analysis left it, with errors or without.  Types and conversions that were
in the body before have plain names.
-/
def IsAnalysed (p : Package) (after : Definition) : Prop :=
  ∃ warnDeprecated reports before, before.function < p.functions.length ∧ before.body.InRange ∧
    before.body.arena.IsPlain ∧ after = (p.analyseDefinition warnDeprecated reports before).1

theorem IsAnalysed.function_lt {d : Definition} (h : p.IsAnalysed d) :
    d.function < p.functions.length := by
  obtain ⟨warnDeprecated, reports, before, hf, -, -, rfl⟩ := h
  exact hf

theorem IsAnalysed.isPlain {d : Definition} (h : p.IsAnalysed d) (hp : p.IsPlain) :
    d.body.arena.IsPlain := by
  obtain ⟨warnDeprecated, reports, before, -, hin, hb, rfl⟩ := h
  exact hp.arena Ty.pervasive_isPlain (by decide) (by rintro name ⟨⟩) warnDeprecated reports hin hb

section Emit

variable (hp : p.IsPlain) {m m' : ModuleState}
include hp

structure Emitted (p : Package) (m m' : ModuleState) (definitions : List Definition)
    (fs : List FunctionDef) : Prop where
  names : fs.map (·.name) = definitions.map fun d => (p.signature d.function).qualifiedName
  within : m.Within m'
  mem_defined : ∀ x, x ∈ m'.defined ↔ x ∈ m.defined ∨ ∃ f ∈ fs, x = ⟨f.name⟩
  linked : ∀ g : Generated, g.Covers → m'.Within g.refs → (∀ f ∈ fs, f ∈ g.allFunctions) →
    m.Linked p g [] → m'.Linked p g [] ∧ ∀ f ∈ fs, g.Resolves f

theorem emitted_of_emitDefinition {d : Definition} (hd : d.body.arena.IsPlain) {f : FunctionDef}
    (hrun : (p.emitDefinition d).run.run m = (.ok f, m')) : p.Emitted m m' [d] [f] := by
  obtain ⟨w, hgen, rfl⟩ := exists_runIn_of_emitDefinition hrun
  let noted := ((noteDefined (p.signature d.function).qualifiedName).run m).2
  let start : Point Around := ⟨⟨.start d.body.variableCount, noted⟩, [], []⟩
  have hcompletes (g : Generated) (hnoted : start.IsPartOf g → noted.Linked p g []) :
      ∃ params ghost, (linkedFrame p g).Completes (p.functionEnv d) params start f ⟨w, ghost⟩ := by
    have hmakes : (linkedDiscipline p g).Makes (p.functionEnv d)
        (genFunction (p.signature d.function) d.body.stmts) :=
      makes_genBody (p := p) rfl False.elim fun _ _ slot _ => generates_genExpr_linked hp hd slot
    obtain ⟨types, ghost, hcompletes⟩ := hmakes.exists_completes (fun _ => ⟨[], []⟩)
      (fun _ hpart => Point.linked_start (hnoted hpart) _) (fun _ _ => knows_operands) hgen
    exact ⟨_, ghost, hcompletes⟩
  -- What holds in any case is seen in the empty module, to which no body was noted.
  obtain ⟨params, ghost, hempty⟩ := hcompletes ⟨{}, []⟩ fun hpart =>
    nomatch hpart.refs.defined List.mem_insert_self
  have hwithin : start.Within ⟨w, ghost⟩ := hempty.continues
  obtain ⟨hcode, hexits⟩ := hempty.code_eq
  refine ⟨congrArg (fun x => [x]) hempty.name_eq, (within_noteDefined m _).trans hwithin.refs,
    fun x => ?_, fun g hg hm hf hlinked => ?_⟩
  · have hdefined : w.refs.defined = noted.defined := hwithin.defined_eq
    rw [hdefined]
    show x ∈ m.defined.insert _ ↔ _
    simp [hempty.name_eq, or_comm, functionEnv]
  · have hnoted : noted.Linked p g [] := { hlinked with }
    obtain ⟨params, ghost, hcompletes⟩ := hcompletes g fun _ => hnoted
    obtain rfl : ghost = start.ghost := Point.Within.ghost_eq hcompletes.continues
    have hpart : Point.IsPartOf ⟨w, start.ghost⟩ g :=
      ⟨hg, hm, List.nil_subset _, hcode ▸ g.code_subset (hf f List.mem_cons_self)⟩
    refine ⟨(hcompletes.closed.1 hpart).refs, fun f' hf' => ?_⟩
    exact List.mem_singleton.mp hf' ▸ hcompletes.resolves hpart

theorem emitted_of_emitDefinitions {definitions : List Definition} {fs : List FunctionDef}
    (h : ∀ d ∈ definitions, d.body.arena.IsPlain)
    (hrun : (definitions.mapM p.emitDefinition).run.run m = (.ok fs, m')) :
    p.Emitted m m' definitions fs := by
  induction definitions generalizing m fs with
  | nil =>
    cases hrun
    exact ⟨rfl, .refl _, by simp, fun _ _ _ _ hlinked => ⟨hlinked, by simp⟩⟩
  | cons d definitions ih =>
    obtain ⟨hd, hrest⟩ := List.forall_mem_cons.mp h
    obtain ⟨f, m₁, gs, hfirst, hothers, rfl⟩ := exists_of_run_mapM_cons hrun
    have hfirst := emitted_of_emitDefinition hp hd hfirst
    have hothers := ih hrest hothers
    refine ⟨?_, hfirst.within.trans hothers.within, fun x => ?_, fun g hg hm hfs hlinked => ?_⟩
    · exact congrArg₂ List.cons (List.cons.inj hfirst.names).1 hothers.names
    · rw [hothers.mem_defined, hfirst.mem_defined]
      simp [or_assoc]
    · obtain ⟨hf, hgs⟩ := List.forall_mem_cons.mp hfs
      obtain ⟨hm₁, hresolves⟩ := hfirst.linked g hg (hothers.within.trans hm) (by simpa using hf) hlinked
      obtain ⟨hm', hothers⟩ := hothers.linked g hg hm hgs hm₁
      exact ⟨hm', List.forall_mem_cons.mpr ⟨hresolves f List.mem_cons_self, hothers⟩⟩

end Emit

/-! ### Closed modules -/

section Closed

variable (h : p.HasPlainNames) {definitions : List Definition}
  (hd : ∀ d ∈ definitions, p.IsAnalysed d) (hdistinct : (definitions.map (·.function)).Nodup)
include h hd hdistinct

theorem nodup_qualifiedNames :
    (definitions.map fun d => (p.signature d.function).qualifiedName).Nodup := by
  rw [List.nodup_map_iff_inj_on hdistinct.of_map]
  intro d hmem d' hmem' heq
  have hfunction := h.eq_of_qualifiedName_eq (hd d hmem).function_lt (hd d' hmem').function_lt heq
  exact (List.nodup_map_iff_inj_on hdistinct.of_map).mp hdistinct d hmem d' hmem' hfunction

theorem isClosed_of_run {g : Generated}
    (hrun : (definitions.mapM p.emitDefinition).run.run {} = (.ok g.functions, g.refs)) :
    g.refs.MakesFunctions ∧ g.IsClosed := by
  have hemitted := emitted_of_emitDefinitions h.isPlain
    (fun d hmem => (hd d hmem).isPlain h.isPlain) hrun
  have hdefined (x : Global) : x ∈ g.refs.defined ↔ ∃ f ∈ g.functions, x = ⟨f.name⟩ := by
    simpa using hemitted.mem_defined x
  have hcovers : g.Covers := fun x hx => (hdefined x).mp hx
  obtain ⟨hlinked, hresolves⟩ := hemitted.linked g hcovers (.refl _)
    (fun f hf => List.mem_append_left _ hf) (.empty p g)
  have hdefines : g.Defines p := by
    refine ⟨hemitted.names ▸ nodup_qualifiedNames h hd hdistinct, fun f hf => ?_,
      fun f hf => (hdefined _).mpr ⟨f, hf, rfl⟩⟩
    have hname : f.name ∈ g.functions.map (·.name) := List.mem_map_of_mem hf
    rw [hemitted.names] at hname
    obtain ⟨d, -, heq⟩ := List.mem_map.mp hname
    exact ⟨d.function, heq.symm⟩
  have hnodup := Generated.nodup_symbols hlinked hdefines h.namesApart
  refine ⟨fun made hmade => ?_, ?_, fun f hf => ?_, fun e he x => g.mentions_mem_symbols hlinked he,
    fun step hstep s hs => hstep.mem_symbols hcovers hs, fun n hn => ?_, fun f hf => ⟨?_, ?_⟩⟩
  · obtain ⟨f, rfl, -⟩ := hlinked.functions made hmade
    exact ⟨f, rfl⟩
  · exact hnodup.map Global.text_injective
  · rcases List.mem_append.mp hf with hf | hf
    · exact hresolves f hf
    · obtain ⟨made, hmade, hfunction⟩ := List.mem_filterMap.mp hf
      obtain ⟨f', rfl, hf'⟩ := hlinked.functions made hmade
      cases hfunction
      exact hf'
  · obtain ⟨made, hmade⟩ := hlinked.exists_made
    obtain ⟨s, hs, f, hf, heq⟩ := hmade.exists_function hn
    exact ⟨s, hs, f, List.mem_append_right _ hf, heq⟩
  · exact (hlinked.callees f (Generated.exists_callee_of_declared hf).1).1
  · -- The symbols of declarations are apart from those of definitions.
    intro f' hf' heq
    rw [Generated.symbols, List.map_append] at hnodup
    refine (List.nodup_append.mp hnodup).2.2 f.symbol ?_ ⟨f'.name⟩ ?_ heq.symm
    · exact List.mem_map_of_mem (List.mem_append_right _ (List.mem_map_of_mem hf))
    · exact List.mem_map_of_mem (List.mem_append_left _ (List.mem_map_of_mem hf'))

/--
In a package with plain names, the module of analysed bodies of distinct functions is
closed, if it can be generated: its text declares or defines each symbol once, and all
that was handed out or is referred to is among these symbols.  The functions of the
run-time library are declared in any case, those of the package only if they are called
and have no body.
-/
theorem isClosed_of_emit {triple text : String} (hemit : p.emit triple definitions = .ok text) :
    ∃ g : Generated, (definitions.mapM p.emitDefinition).run.run {} = (.ok g.functions, g.refs) ∧
      text = g.text p.name triple ∧ g.IsClosed := by
  rcases hrun : (definitions.mapM p.emitDefinition).run.run {} with ⟨e | fs, m⟩
  · have herror : p.emit triple definitions = .error e :=
      congrArg Prod.fst (run_bind_of_error hrun)
    rw [herror] at hemit
    cases hemit
  · have htext : p.emit triple definitions = .ok (m.text p.name triple fs) :=
      congrArg Prod.fst (run_bind_of_ok hrun)
    rw [htext] at hemit
    obtain ⟨hmakes, hclosed⟩ := isClosed_of_run (g := ⟨m, fs⟩) h hd hdistinct hrun
    refine ⟨⟨m, fs⟩, rfl, ?_, hclosed⟩
    rw [← Generated.text_eq _ hmakes]
    exact (Except.ok.inj hemit).symm

end Closed

def greetingPackage : Package where
  functions := [
    { name := "show", params := [⟨"x", .something⟩], ret := .object "String" [] },
    { name := "main", ret := .callable [] .something }]

/-- The body `"hi"; return { show(1) }`: the argument is a constant box, and the closure is adapted. -/
def deferredShow : Definition where
  function := 1
  body :=
    { arena := { nodes := #[
        { span := ⟨0, 4⟩, kind := .string "hi" },
        { span := ⟨20, 1⟩, kind := .int 1 },
        { span := ⟨15, 7⟩, kind := .call ⟨"show", ⟨15, 4⟩⟩ { span := ⟨20, 1⟩, args := [1] } none },
        { span := ⟨13, 11⟩, kind := .closure {
            params := [], ret := .named ⟨0, 6⟩ "String" [], body := 2 } }] }
      stmts := [.expr 0, .ret { span := ⟨5, 19⟩, value? := some 3 }] }

theorem hasPlainNames_greetingPackage : greetingPackage.HasPlainNames where
  isPlain := by
    refine ⟨⟨⟨by decide, by decide, by decide, by decide, by decide⟩, fun e he t ht => ?_⟩,
      fun f hf => ?_⟩
    · obtain rfl := List.mem_singleton.mp he
      cases ht
    · simp only [greetingPackage, List.mem_cons, List.not_mem_nil, or_false] at hf
      rcases hf with rfl | rfl <;> constructor <;>
        simp [Ty.MentionsOnly, Ty.Every, Ty.EveryAll, Ty.name?]
      decide
  functions := by decide
  nodup := by decide
  notMem_emberNames := by decide

theorem isFresh_deferredShow : deferredShow.body.IsFresh := by
  decide

theorem isClosed_deferredShow :
    let definitions := [(greetingPackage.analyseDefinition true [] deferredShow).1]
    let triple := "x86_64-unknown-linux-gnu"
    greetingPackage.HasPlainNames ∧ (∀ d ∈ definitions, greetingPackage.IsAnalysed d) ∧
      (definitions.map (·.function)).Nodup ∧
      ∃ text, greetingPackage.emit triple definitions = .ok text ∧ ∃ g : Generated,
        (definitions.mapM greetingPackage.emitDefinition).run.run {} = (.ok g.functions, g.refs) ∧
          text = g.text "main" triple ∧ g.IsClosed := by
  intro definitions triple
  have hanalysed (d : Definition) (hd : d ∈ definitions) : greetingPackage.IsAnalysed d := by
    obtain rfl := List.mem_singleton.mp hd
    exact ⟨true, [], deferredShow, by decide, isFresh_deferredShow.inRange, isFresh_deferredShow.mentions, rfl⟩
  have hdistinct : (definitions.map (·.function)).Nodup := List.nodup_singleton _
  have hok : (greetingPackage.emit triple definitions).isOk = true := by decide +kernel
  refine ⟨hasPlainNames_greetingPackage, hanalysed, hdistinct, ?_⟩
  cases hemit : greetingPackage.emit triple definitions with
  | error e =>
    rw [hemit] at hok
    cases hok
  | ok text =>
    exact ⟨text, rfl, isClosed_of_emit hasPlainNames_greetingPackage hanalysed hdistinct hemit⟩

end Package

end Boxlang
