import Boxlang.Proofs.Discipline.Body
import Boxlang.Proofs.Discipline.Labels
import Boxlang.Proofs.Invariants.Mentions
import Boxlang.Proofs.Symbols.Linked

/-!
# The discipline of known symbols

The finished module `g` is fixed in advance, and nothing is asked of a function under
construction unless all of it gets into `g`: its code, that of the functions around it,
and what the module refers to so far (`Emit.Point.IsPartOf`).  So an operand is at hand
if it is known in `g`, and stays so, since generation only adds.
-/

namespace Boxlang

open Llvm

abbrev Conversion.IsPlain (op : Conversion) : Prop :=
  op.Each (Conversion.Mentions IsPlainName Ty.IsPlain)

abbrev Arena.IsPlain (a : Arena) : Prop :=
  a.Mentions IsPlainName Ty.IsPlain

abbrev Package.IsPlain (p : Package) : Prop :=
  p.Mentions IsPlainName Ty.IsPlain

theorem Package.signature_cases (p : Package) (id : FunctionId) :
    p.signature id ∈ p.functions ∨ p.signature id = default := by
  rcases Nat.lt_or_ge id p.functions.length with hlt | hge
  · exact .inl (p.signature_mem hlt)
  · refine .inr ?_
    rw [signature, List.getD_eq_getElem?_getD, List.getElem?_eq_none hge, Option.getD_none]

theorem Package.IsPlain.owner {p : Package} (h : p.IsPlain) (id : FunctionId) :
    ∀ t ∈ (p.signature id).owner?, t.IsPlain := by
  rcases p.signature_cases id with hmem | heq
  · exact (h.functions _ hmem).owner
  · rw [heq]
    rintro t ⟨⟩

namespace Emit

variable {p : Package} {g : Generated}

/-! ### Functions under construction -/

/-- The functions around one that is under construction: their symbols, and their code so far. -/
structure Around where
  symbols : List Symbol
  code : List Instr

namespace Point

/-- The finished module has all that the world refers to, and all code of the functions. -/
structure IsPartOf (pt : Point Around) (g : Generated) : Prop where
  covers : g.Covers
  refs : pt.world.refs.Within g.refs
  around : pt.ghost.code ⊆ g.code
  code : pt.function.code ⊆ g.code

/-- What is noted is as it should be, and the function uses known operands only. -/
structure Linked (p : Package) (g : Generated) (pt : Point Around) : Prop where
  refs : pt.world.refs.Linked p g pt.ghost.symbols
  code : ∀ i ∈ pt.function.code, ∀ o ∈ i.operands, g.Knows o
  exits : ∀ exit ∈ pt.function.exits, ∀ o ∈ exit.uses, g.Knows o

/-- Nothing is lost from the one point to the other, and no body is noted. -/
structure Within (pt pt' : Point Around) : Prop where
  refs : pt.world.refs.Within pt'.world.refs
  defined_eq : pt'.world.refs.defined = pt.world.refs.defined
  code : pt.function.code ⊆ pt'.function.code
  ghost_eq : pt'.ghost = pt.ghost

variable {pt pt' pt'' : Point Around}

theorem Within.refl (pt : Point Around) : pt.Within pt :=
  ⟨.refl _, rfl, List.Subset.refl _, rfl⟩

theorem Within.trans (h : pt.Within pt') (h' : pt'.Within pt'') : pt.Within pt'' :=
  ⟨h.refs.trans h'.refs, h'.defined_eq.trans h.defined_eq, List.Subset.trans h.code h'.code,
    h'.ghost_eq.trans h.ghost_eq⟩

theorem IsPartOf.of_within (h : pt'.IsPartOf g) (hpt : pt.Within pt') : pt.IsPartOf g :=
  ⟨h.covers, hpt.refs.trans h.refs, hpt.ghost_eq ▸ h.around, List.Subset.trans hpt.code h.code⟩

theorem within_add (pt : Point Around) (i : Instr) (next : Nat) : pt.Within (pt.add i next) :=
  ⟨.refl _, rfl, pt.code_add i next ▸ List.subset_append_left _ _, rfl⟩

theorem within_finish (pt : Point Around) (exit : Terminator) (returned : Bool) :
    pt.Within (pt.finish exit returned) :=
  ⟨.refl _, rfl, pt.code_finish exit returned ▸ List.Subset.refl _, rfl⟩

theorem within_refer {m : ModuleState} (hm : pt.world.refs.Within m)
    (hdefined : m.defined = pt.world.refs.defined) : pt.Within (pt.refer m) :=
  ⟨hm, hdefined, List.Subset.refl _, rfl⟩

theorem linked_start {m : ModuleState} {ghost : Around} (hm : m.Linked p g ghost.symbols)
    (count : Nat) : Point.Linked p g ⟨⟨.start count, m⟩, ghost⟩ where
  refs := hm
  code := by simp [FunctionState.code, FunctionState.start]
  exits := by simp [FunctionState.exits, FunctionState.start]

end Point

/-! ### Frames -/

def linkedFrame (p : Package) (g : Generated) : Frame where
  Ghost := Around
  Typed := False
  IsName := IsPlainName
  IsType := Ty.IsPlain
  Passes _ := True
  Sound _ pt := pt.IsPartOf g → pt.Linked p g
  Closed pt := (pt.IsPartOf g → pt.Linked p g) ∧ pt.function.body = []
  Has pt o := pt.IsPartOf g → g.Knows o
  Receives _ params := ∀ o ∈ params, g.Knows o
  Joins pt _ pt' := pt.Within pt'
  Continues := Point.Within
  refl := .refl
  trans := .trans
  has_mono ho h hpt' := ho (hpt'.of_within h)
  receives_mono h _ := h

theorem ignoresLabels_linkedFrame : (linkedFrame p g).IgnoresLabels where
  has_register _ _ _ := trivial
  joins_iff := .rfl
  add {_ pt i} h hi _ next := by
    have hwithin := pt.within_add i next
    refine ⟨fun hpart => ?_, hwithin⟩
    have hpt := hpart.of_within hwithin
    refine ⟨(h hpt).refs, fun j hj => ?_, (h hpt).exits⟩
    rcases List.mem_append.mp (pt.code_add i next ▸ hj) with hj | hj
    · exact (h hpt).code j hj
    · exact List.mem_singleton.mp hj ▸ fun o ho => hi o ho hpt
  relabel {_ pt} h label nextBlock :=
    have hwithin : pt.Within (pt.relabel label nextBlock) := ⟨.refl _, rfl, List.Subset.refl _, rfl⟩
    ⟨fun hpart =>
      have hlinked := h (hpart.of_within hwithin)
      ⟨hlinked.refs, hlinked.code, hlinked.exits⟩, hwithin⟩
  finish {_ pt exit} h huses _ returned := by
    have hwithin := pt.within_finish exit returned
    refine ⟨fun hpart => ?_, hwithin⟩
    have hpt := hpart.of_within hwithin
    refine ⟨(h hpt).refs, pt.code_finish exit returned ▸ (h hpt).code, fun e he => ?_⟩
    rcases List.mem_append.mp (pt.exits_finish exit returned ▸ he) with he | he
    · exact (h hpt).exits e he
    · exact List.mem_singleton.mp he ▸ fun o ho => huses o ho hpt

/-! ### Steps that note something -/

section Notes

variable {has : Operand → Prop} {step : ModuleM Global} {s : ModuleState}

theorem Notes.handsOut {isName : String → Prop} {isType : Ty → Prop}
    (h : Notes isName isType has step) : HandsOut step := by
  cases h <;> constructor

theorem HandsOut.within (h : HandsOut step) (s : ModuleState) : s.Within (step.run s).2 := by
  cases h with
  | function d f => exact within_functionSymbol s d f
  | callable => exact within_callableMeta s
  | type t => exact within_metaSymbol s t
  | protocol name => exact within_protocolSymbol s name
  | conformance t name => exact within_conformanceSymbol s t name
  | string value => exact within_internString s value
  | box tag image => exact within_constantBox s tag image

theorem HandsOut.defined_eq (h : HandsOut step) (s : ModuleState) :
    (step.run s).2.defined = s.defined := by
  cases h with
  | function d f =>
    rw [run_functionSymbol]
    dsimp only
    split <;> rfl
  | type t => rw [run_metaSymbol]
  | string value =>
    rw [run_internString]
    split <;> rfl
  | _ => rfl

theorem Notes.linked (h : Notes IsPlainName Ty.IsPlain has step) {around : List Symbol}
    (hs : s.Linked p g around) (hhas : ∀ o, has o → g.Knows o) :
    (step.run s).2.Linked p g around := by
  cases h with
  | callable => exact hs.insert_meta (by decide)
  | type ht =>
    rw [run_metaSymbol]
    exact hs.insert_meta ht.isPlainName_metaName
  | protocol hname => exact hs.insert_protocol hname
  | conformance ht hname =>
    exact (hs.insert_protocol hname).insert_conformance ht.isPlainName_erased List.mem_insert_self
  | string value =>
    rw [run_internString]
    split
    · exact hs
    · exact { hs with }
  | box image htag => exact hs.add_box (hhas _ htag)

end Notes

theorem linked_functionSymbol {d : Declarations} {id : FunctionId} {s : ModuleState}
    {around : List Symbol} (hs : s.Linked p g around)
    (hcalls : g.Calls ⟨(p.signature id).qualifiedName⟩) :
    ((functionSymbol d (p.signature id)).run s).2.Linked p g around := by
  rw [run_functionSymbol]
  dsimp only
  split
  next => exact hs
  next hany => exact hs.add_callee (by simpa using hany) hcalls ⟨id, rfl⟩

section Steps

variable {env : FunctionEnv} {owed : List Label} {pt : Point Around}

theorem has_handedOut {step : ModuleM Global} (h : HandsOut step) :
    (linkedFrame p g).Has (pt.refer (step.run pt.world.refs).2)
      (.global (step.run pt.world.refs).1) :=
  fun hpart => h.mem_symbols hpart.covers hpart.refs

theorem keeps_notes {step : ModuleM Global}
    (h : Notes IsPlainName Ty.IsPlain ((linkedFrame p g).Has pt) step) :
    (linkedFrame p g).Keeps env owed pt (liftM step) fun x pt' =>
      (linkedFrame p g).Has pt' (.global x) := by
  intro hpt
  have hwithin : pt.Within (pt.refer (step.run pt.world.refs).2) :=
    Point.within_refer (h.handsOut.within _) (h.handsOut.defined_eq _)
  refine .of_runIn (q := pt.refer _) (runIn_liftM step) ⟨fun hpart => ?_, ⟨hwithin, rfl, rfl⟩,
    has_handedOut h.handsOut⟩
  have hpt' := hpart.of_within hwithin
  exact ⟨h.linked (hpt hpt').refs fun o ho => ho hpt', (hpt hpt').code, (hpt hpt').exits⟩

/-! ### Calls of functions of the package -/

/-- A call is one instruction. -/
theorem exists_of_runIn_emitCall {ret : LType} {callee : Operand} {args : List Value} {w w' : World}
    {v : Value} (h : (emitCall ret callee args).runIn env w = (.ok v, w')) :
    v.type = ret ∧ ∃ i next, i.callee? = some callee ∧
      w' = ⟨{ w.function with body := w.function.body ++ [i], nextRegister := next }, w.refs⟩ := by
  unfold emitCall at h
  dsimp only at h
  split at h
  next hvoid =>
    cases h
    exact ⟨(Declarations.eq_void_of_isVoid hvoid).symm, .callVoid callee _, _, rfl, rfl⟩
  next =>
    cases h
    exact ⟨rfl, .call _ ret callee _, _, rfl, rfl⟩

/-- If the call gets into the module, then its callee may be noted before it. -/
theorem keeps_callPackage (d : Declarations) (id : FunctionId) (ret : LType) (args : List Value)
    (hcall : ∀ x pt', (linkedFrame p g).Extends pt pt' → (linkedFrame p g).Has pt' (.global x) →
      (linkedFrame p g).Keeps env owed pt' (emitCall ret (.global x) args) fun v pt'' =>
        (linkedFrame p g).Has pt'' v.operand ∧ v.type = ret) :
    (linkedFrame p g).Keeps env owed pt (do
      let x ← functionSymbol d (p.signature id)
      emitCall ret (.global x) args) fun v pt' =>
        (linkedFrame p g).Has pt' v.operand ∧ v.type = ret := by
  intro hpt v w hrun
  obtain ⟨x, w₁, hx, hrun⟩ := exists_of_runIn_bind hrun
  cases hx
  let x : Global := ⟨(p.signature id).qualifiedName⟩
  let pt₁ := pt.refer ((functionSymbol d (p.signature id)).run pt.world.refs).2
  have hhands : HandsOut (functionSymbol d (p.signature id)) := .function d _
  have hwithin : pt.Within pt₁ := Point.within_refer (hhands.within _) (hhands.defined_eq _)
  have hext : (linkedFrame p g).Extends pt pt₁ := ⟨hwithin, rfl, rfl⟩
  by_cases hcalls : g.Calls x
  · have hpt₁ (hpart : pt₁.IsPartOf g) : pt₁.Linked p g :=
      have hlinked := hpt (hpart.of_within hwithin)
      ⟨linked_functionSymbol hlinked.refs hcalls, hlinked.code, hlinked.exits⟩
    obtain ⟨ghost, hsound, hext', hv⟩ := hcall x pt₁ hext (has_handedOut hhands) hpt₁ v w hrun
    exact ⟨ghost, hsound, hext.trans hext', hv⟩
  · -- Then the call does not get into the module.
    obtain ⟨htype, i, next, hcallee, rfl⟩ := exists_of_runIn_emitCall hrun
    have hnot : ¬ (pt₁.add i next).IsPartOf g := fun hpart =>
      hcalls ⟨i, hpart.code (by simp), hcallee⟩
    exact ⟨pt.ghost, fun h => absurd h hnot, hext.trans ⟨pt₁.within_add i next, rfl, rfl⟩,
      fun h => absurd h hnot, htype⟩

/-! ### Functions made along the way -/

theorem Numbers.exists_symbol {mk : ModuleM String} (h : Numbers mk) (s : ModuleState) :
    ∃ x : Symbol, ⟨(mk.run s).1⟩ = x.global ∧ s.Within (mk.run s).2 ∧
      (mk.run s).2.defined = s.defined ∧
      ∀ around, s.Linked p g around → (mk.run s).2.Linked p g (x :: around) := by
  cases h with
  | closure enclosing =>
    exact ⟨.closure enclosing s.nextClosure, rfl, within_nextClosureName s enclosing, rfl,
      fun _ hs => hs.next_closure enclosing⟩
  | adapter =>
    exact ⟨.adapter s.nextAdapter, rfl, within_nextAdapterName s, rfl, fun _ hs => hs.next_adapter⟩

theorem knows_operands {style : ArgumentStyle} {types : List LType} {o : Operand}
    (ho : o ∈ style.operands types) : g.Knows o := by
  rcases List.mem_append.mp ho with ho | ho
  · cases style with
    | free => cases ho
    | method _ | closure _ => exact List.mem_singleton.mp ho ▸ trivial
  · obtain ⟨q, -, rfl⟩ := List.mem_map.mp ho
    trivial

/-- A function that is complete has all code that was emitted for it. -/
theorem Frame.Completes.code_eq {params : List Operand} {pt' : Point Around} {f : FunctionDef}
    (h : (linkedFrame p g).Completes env params pt f pt') :
    f.code = pt'.function.code ∧ f.exits = pt'.function.exits := by
  simp [FunctionDef.code, FunctionDef.exits, FunctionState.code, FunctionState.exits, h.blocks_eq,
    h.closed.2]

theorem Frame.Completes.resolves {params : List Operand} {pt' : Point Around} {f : FunctionDef}
    (h : (linkedFrame p g).Completes env params pt f pt') (hpart : pt'.IsPartOf g) :
    g.Resolves f :=
  have hlinked := h.closed.1 hpart
  ⟨h.code_eq.1 ▸ hlinked.code, h.code_eq.2 ▸ hlinked.exits⟩

theorem keeps_making {mk : ModuleM String} {count : Nat} {captures : List (VariableId × LType)}
    {step : Emit FunctionDef} (hmk : Numbers mk)
    (hstep : ∀ name, (linkedFrame p g).Makes
      { env with name, variableCount := count, style := .closure captures } step) :
    (linkedFrame p g).Keeps env owed pt (making mk count captures step) fun name pt' =>
      (linkedFrame p g).Has pt' (.global ⟨name⟩) := by
  intro hpt
  obtain ⟨x, hx, hwithin, hdefined, hlinked⟩ := hmk.exists_symbol (p := p) (g := g) pt.world.refs
  let around : Around := ⟨x :: pt.ghost.symbols, pt.ghost.code ++ pt.function.code⟩
  have hstart (h : Point.IsPartOf ⟨⟨.start count, (mk.run pt.world.refs).2⟩, around⟩ g) :
      pt.IsPartOf g :=
    ⟨h.covers, hwithin.trans h.refs, (List.append_subset.mp h.around).1,
      (List.append_subset.mp h.around).2⟩
  refine Frame.reaches_making (F := linkedFrame p g) hstep (fun _ => around)
    (fun _ hpart => Point.linked_start (hlinked _ (hpt (hstart hpart)).refs) count)
    (fun _ _ => knows_operands) fun types f q hq => ?_
  -- The function is one of the finished module as soon as it has its place there.
  have hinner : Point.Within _ q := hq.continues
  have hpush := within_pushFunction q.world.refs (.function f)
  let pt' := pt.refer ((pushFunction (.function f)).run q.world.refs).2
  have hpt' : pt.Within pt' := Point.within_refer (hwithin.trans (hinner.refs.trans hpush))
    (hinner.defined_eq.trans hdefined)
  have hmem (hpart : pt'.IsPartOf g) : f ∈ g.allFunctions := by
    refine List.mem_append_right _ (List.mem_filterMap.mpr ⟨.function f, ?_, rfl⟩)
    exact hpart.refs.synthesized (List.mem_append_right _ List.mem_cons_self)
  have hqPart (hpart : pt'.IsPartOf g) : q.IsPartOf g := by
    refine ⟨hpart.covers, hpush.trans hpart.refs, ?_, hq.code_eq.1 ▸ g.code_subset (hmem hpart)⟩
    rw [hinner.ghost_eq]
    exact List.append_subset.mpr ⟨hpart.around, hpart.code⟩
  refine ⟨fun hpart => ?_, ⟨hpt', rfl, rfl⟩, fun hpart => ?_⟩
  · have hpt := hpt (hpart.of_within hpt')
    have hrefs := (hq.closed.1 (hqPart hpart)).refs
    rw [hinner.ghost_eq] at hrefs
    refine ⟨hrefs.push ?_ (hq.resolves (hqPart hpart)), hpt.code, hpt.exits⟩
    rw [hq.name_eq]
    exact hx
  · have hsymbol := Generated.mem_symbols_of_function (hmem hpart)
    rwa [hq.name_eq] at hsymbol

end Steps

/-! ### The discipline -/

theorem knows_of_isConstant {o : Operand} (h : o.IsConstant) : g.Knows o := by
  cases o with
  | global x => cases h
  | _ => trivial

theorem knows_runtime {name : String} (h : name ∈ runtimeNames) : g.Knows (runtime name) :=
  Generated.mem_symbols_of_runtime h

def linkedDiscipline (p : Package) (g : Generated) : Discipline p where
  toFrame := linkedFrame p g
  pervasive := Ty.pervasive_isPlain
  has_constant h _ := knows_of_isConstant h
  has_runtime h _ := knows_runtime h
  has_received h ho _ := h _ ho
  has_param _ _ _ _ := trivial
  rebind {pt _} h bindings :=
    have hwithin : pt.Within (pt.rebind bindings) := ⟨.refl _, rfl, List.Subset.refl _, rfl⟩
    ⟨fun hpart =>
      have hlinked := h (hpart.of_within hwithin)
      ⟨hlinked.refs, hlinked.code, hlinked.exits⟩, hwithin⟩
  emit hi _ hphi := ignoresLabels_linkedFrame.emit hi hphi
  define hi _ hphi := ignoresLabels_linkedFrame.define hi hphi
  note := keeps_notes
  callFunction d id ret args _ hcall := keeps_callPackage d id ret args hcall
  emitCheck hfailed message := ignoresLabels_linkedFrame.emitCheck hfailed
    (fun _ _ => knows_runtime (by decide)) (fun _ value => keeps_notes (.string value)) message
  branching roles hcondition hfalse htrue hnext :=
    ignoresLabels_linkedFrame.branching roles hcondition (hfalse _) (htrue _) hnext
  phi hjoins ho ho' htype :=
    ignoresLabels_linkedFrame.phi hjoins ho (fun _ => knows_of_isConstant ho') htype
  finish h huses _ hexit returned :=
    have hfinish := ignoresLabels_linkedFrame.finish h huses hexit returned
    ⟨⟨hfinish.1, rfl⟩, hfinish.2⟩
  make := keeps_making

/-! ### What suits the discipline -/

theorem fits_linkedFrame {d : Declarations} {op : Conversion} (h : op.IsPlain) (source target : Ty) :
    (linkedFrame p g).Fits d op source target := by
  induction h generalizing source target with
  | @intro op hop _ ih =>
    cases op with
    | adaptCallable inner outer args ret =>
      refine .adapt (fun _ _ _ _ _ _ _ _ => trivial) (fun ps r ps' r' _ _ e he op hop => ?_)
        fun ps r ps' r' _ _ op hop => ?_
      · refine ih op (List.mem_filterMap.mpr ⟨e.1, List.mem_append_left _ ?_, hop⟩) _ _
        exact (List.of_mem_zip he).1
      · exact ih op (List.mem_filterMap.mpr ⟨ret, List.mem_append_right _ List.mem_cons_self, hop⟩) _ _
    | _ => exact .step nofun hop False.elim

theorem generates_genExpr_linked {a : Arena} (hp : p.IsPlain) (ha : a.IsPlain) (slot : Slot) :
    (linkedDiscipline p g).Generates p a genExpr slot :=
  Discipline.generates_genExpr (D := linkedDiscipline p g) hp.owner (by exact id) fun x _ =>
    ⟨ha.types x, fun inner op hk => fits_linkedFrame (ha.conversions x inner op hk) _ _⟩

end Emit

end Boxlang
