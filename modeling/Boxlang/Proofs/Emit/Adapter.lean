import Boxlang.Proofs.Conversion.Differ
import Boxlang.Proofs.Conversion.Optional
import Boxlang.Proofs.Emit.TypedBox
import Boxlang.Proofs.Flow.Package

/-!
# Functions of adapted callables type check

A callable can be adapted to any callable above it.  The function of the adapter takes
and gives what callables of the one type do, and passes on and receives what callables
of the other do, each in its LLVM type.  The conversions of its arguments and its result
type check as well, and where they adapt callables again, the functions of those.
-/

namespace Boxlang

open Llvm

namespace Conversion

mutual

/-- The types that callables are adapted between, in the order in which their functions are made. -/
def adapted : Conversion → List (Ty × Ty)
  | .adaptCallable source target args ret =>
    adaptedAll args ++ adaptedEntry ret ++ [(source, target)]
  | _ => []

/-- As `adapted`, for an entry of an adapted callable. -/
def adaptedEntry : Option Conversion → List (Ty × Ty)
  | some op => adapted op
  | none => []

/-- As `adapted`, for the arguments of an adapted callable. -/
def adaptedAll : List (Option Conversion) → List (Ty × Ty)
  | entry :: entries => adaptedEntry entry ++ adaptedAll entries
  | [] => []

end

theorem adaptedAll_eq_flatMap (entries : List (Option Conversion)) :
    adaptedAll entries = entries.flatMap adaptedEntry := by
  induction entries with
  | nil => rfl
  | cons entry entries ih => rw [adaptedAll, ih, List.flatMap_cons]

theorem mem_adapted_of_mem_entries {op entry : Conversion} {q : Ty × Ty} (h : entry ∈ op.entries)
    (hq : q ∈ entry.adapted) : q ∈ op.adapted := by
  cases op with
  | adaptCallable source target args ret =>
      obtain ⟨e, hmem, rfl⟩ := List.mem_filterMap.mp h
      rw [adapted, adaptedAll_eq_flatMap]
      apply List.mem_append_left
      rcases List.mem_append.mp hmem with hmem | hmem
      · exact List.mem_append_left _ (List.mem_flatMap.mpr ⟨_, hmem, hq⟩)
      · exact List.mem_append_right _ (List.mem_singleton.mp hmem ▸ hq)
  | _ => cases h

theorem mem_adapted_of_contains {op : Conversion} {source target : Ty}
    {args : List (Option Conversion)} {ret : Option Conversion}
    (h : op.Contains (.adaptCallable source target args ret)) : (source, target) ∈ op.adapted := by
  induction h using Relation.TransGen.head_induction_on with
  | single h => exact mem_adapted_of_mem_entries h (List.mem_append_right _ List.mem_cons_self)
  | head h _ ih => exact mem_adapted_of_mem_entries h ih

/-- A step from a type to one above it; adapters are such in their entries. -/
def IsWidening (d : Declarations) (c : GenericContext) (op : Conversion) (source target : Ty) : Prop :=
  (∀ s t args ret, op ≠ .adaptCallable s t args ret) →
    d.Widens c source target ∧ conversionBetween? source target = some op

end Conversion

open Conversion

namespace Emit

variable {env : FunctionEnv} {c : GenericContext} {params : List Value} {w : World}

/-! ### The conversions one by one -/

section Steps

variable {d : Declarations} {value : Value} {t : Ty}

theorem World.Holds.has_object (h : w.Holds params value (d.llvmType t)) (ht : t.storage = .simple)
    (name : String) (args : List Ty) (hu : t.unboxed = .object name args) :
    w.Has params value.operand .ptr := by
  obtain ⟨-, hhas⟩ := h
  rwa [d.llvmType_of_simple ht, Declarations.nativeType, hu] at hhas

theorem produces_boxTag (hvalue : w.Holds params value (d.llvmType t)) (ht : t.storage = .simple)
    (protocol : Option String) :
    Produces env params w (boxTag value t protocol) [] fun o w' => w'.Has params o .ptr := by
  unfold boxTag
  split
  next protocol name args hu =>
    refine (produces_metaOfObject (hvalue.has_object ht name args hu)).and_then
      fun tag _ _ htag => ?_
    exact produces_conformanceOf htag protocol
  next =>
    refine .map ?_
    exact (produces_liftM _ (by simp)).mono fun g _ _ _ => .global g
  next => exact produces_dynamicMeta (hvalue.has_object ht)

theorem produces_realizeBox (hvalue : w.Holds params value (d.llvmType t)) (ht : t.storage = .simple)
    (protocol : Option String) :
    Produces env params w (realizeBox value t protocol) [] fun v w' => w'.Holds params v .ptr := by
  unfold realizeBox
  refine (produces_alloc rfl).and_then fun box w₁ h₁ hbox => ?_
  refine (produces_boxTag (hvalue.mono h₁) ht protocol).and_then fun tag w₂ h₂ htag => ?_
  refine (produces_tagField (hbox.mono h₂)).and_then fun field w₃ h₃ hfield => ?_
  refine (produces_storePointer hfield (htag.mono h₃)).and_then fun _ w₄ h₄ _ => ?_
  have h₂₄ := (h₂.trans h₃).trans h₄
  refine (produces_storeInBox (hbox.mono h₂₄) (hvalue.mono (h₁.trans h₂₄)) t).and_then
    fun _ w₅ h₅ _ => .pure ⟨rfl, hbox.mono (h₂₄.trans h₅)⟩

theorem produces_realizeBoxOptional (ht : t.storage = .simple)
    (hvoid : (env.package.declarations.llvmType t).isVoid = false)
    (hvalue : w.Holds params value (env.package.declarations.llvmType (.optional t))) :
    Produces env params w (realizeBoxOptional value t) [] fun v w' => w'.Holds params v .ptr := by
  have hlayout := represents_ofType env.package.declarations ht
  unfold realizeBoxOptional
  refine (produces_alloc rfl).and_then fun box w₁ h₁ hbox => ?_
  refine (produces_tagField hbox).and_then fun field w₂ h₂ hfield => ?_
  have hvalue₂ := hvalue.mono (h₁.trans h₂)
  refine (produces_optionalIsEmpty hlayout hvalue₂).and_then fun empty w₃ h₃ hempty => ?_
  refine (produces_freshLabel .boxSome).and_then fun someLabel w₄ h₄ _ => ?_
  refine (produces_freshLabel .boxNone).and_then fun noneLabel w₅ h₅ _ => ?_
  refine (produces_freshLabel .boxJoin).and_then fun joinLabel w₆ h₆ _ => ?_
  refine .and_then (produces_finishBlock (hempty.mono ((h₄.trans h₅).trans h₆)) not_false)
    fun _ w₇ h₇ _ => ?_
  refine (produces_startBlock someLabel).and_then fun _ w₈ h₈ _ => ?_
  have h₃₈ := ((h₃.trans h₄).trans (h₅.trans h₆)).trans (h₇.trans h₈)
  refine (produces_llvmType t).and_then fun type w₉ _ htype => ?_
  obtain ⟨rfl, rfl⟩ := htype
  refine (produces_optionalPayload hlayout hvoid (hvalue₂.mono h₃₈)).and_then
    fun payload w₁₀ h₁₀ hpayload => ?_
  refine (produces_dynamicMeta (hpayload.has_object ht)).and_then fun tag w₁₁ h₁₁ htag => ?_
  have h₃₁₁ := h₃₈.trans (h₁₀.trans h₁₁)
  refine (produces_storePointer (hfield.mono h₃₁₁) htag).and_then fun _ w₁₂ h₁₂ _ => ?_
  have h₂₁₂ := (h₂.trans h₃₁₁).trans h₁₂
  refine (produces_storeInBox (hbox.mono h₂₁₂) (hpayload.mono (h₁₁.trans h₁₂)) t).and_then
    fun _ w₁₃ h₁₃ _ => ?_
  refine .and_then (produces_finishBlock trivial not_false) fun _ w₁₄ h₁₄ _ => ?_
  refine (produces_startBlock noneLabel).and_then fun _ w₁₅ h₁₅ _ => ?_
  have h₁₃₁₅ := (h₁₃.trans h₁₄).trans h₁₅
  refine .and_then (produces_storePointer (hfield.mono ((h₃₁₁.trans h₁₂).trans h₁₃₁₅)) .null)
    fun _ w₁₆ h₁₆ _ => ?_
  refine .and_then (produces_finishBlock trivial not_false) fun _ w₁₇ h₁₇ _ => ?_
  refine (produces_startBlock joinLabel).and_then fun _ w₁₈ h₁₈ _ => .pure ⟨rfl, ?_⟩
  exact hbox.mono ((h₂₁₂.trans h₁₃₁₅).trans ((h₁₆.trans h₁₇).trans h₁₈))

theorem produces_realizeRebox (hvalue : w.Holds params value .ptr) (protocol : String) :
    Produces env params w (realizeRebox value protocol) [] fun v w' => w'.Holds params v .ptr := by
  obtain ⟨-, hvalue⟩ := hvalue
  unfold realizeRebox
  refine (produces_loadTag hvalue).and_then fun tag w₁ h₁ htag => ?_
  refine (produces_conformanceOf htag protocol).and_then fun conformance w₂ h₂ hconformance => ?_
  refine (produces_sizeFor rfl).and_then fun size w₃ h₃ hsize => ?_
  refine (produces_allocSize hsize).and_then fun copy w₄ h₄ hcopy => ?_
  have hvalue₄ := hvalue.mono ((h₁.trans h₂).trans (h₃.trans h₄))
  refine .and_then (produces_emit ⟨?_, ?_⟩ rfl rfl) fun _ w₅ h₅ _ => ?_
  · simp [Operand.TakesTypes, runtime, library, Value.pointer]
  · simp only [List.forall_mem_cons, List.not_mem_nil, false_implies, implies_true, and_true]
    exact ⟨⟨rfl, hcopy⟩, ⟨rfl, hvalue₄⟩, ⟨rfl, hsize.mono h₄⟩, rfl, .bool false⟩
  refine (produces_tagField (hcopy.mono h₅)).and_then fun field w₆ h₆ hfield => ?_
  have h₃₆ := (h₃.trans h₄).trans (h₅.trans h₆)
  exact (produces_storePointer hfield (hconformance.mono h₃₆)).and_then
    fun _ w₇ h₇ _ => .pure ⟨rfl, hcopy.mono ((h₅.trans h₆).trans h₇)⟩

theorem produces_checkTag {box : Operand} (hbox : w.Has params box .ptr) (t : Ty) :
    Produces env params w (checkTag box t) [] Anything := by
  unfold checkTag
  split
  next => exact .pure trivial
  next =>
    refine (produces_loadTag hbox).and_then fun tag w₁ _ htag => ?_
    refine (produces_liftM _ (by simp)).and_then fun expected w₂ h₂ _ => ?_
    refine .and_then (produces_define (t := .int 1) (fun _ => ⟨rfl, htag.mono h₂, .global expected⟩)
      (fun _ => rfl) (fun _ => rfl) fun _ => rfl) fun mismatch w₃ _ hmismatch => ?_
    exact produces_emitCheck hmismatch _

theorem produces_realizeUnbox (hvalue : w.Holds params value .ptr) (t : Ty) :
    Produces env params w (realizeUnbox value t) [] fun v w' =>
      w'.Holds params v (env.package.declarations.llvmType t) := by
  unfold realizeUnbox
  exact (produces_checkTag hvalue.2 t).and_then fun _ w₁ h₁ _ =>
    produces_loadFromBox (hvalue.2.mono h₁) t

theorem produces_realizeUnboxOptional (ht : t.storage = .simple)
    (hvoid : (env.package.declarations.llvmType t).isVoid = false)
    (hvalue : w.Holds params value .ptr) :
    Produces env params w (realizeUnboxOptional value (.optional t)) [] fun v w' =>
      w'.Holds params v (env.package.declarations.llvmType (.optional t)) := by
  obtain ⟨-, hvalue⟩ := hvalue
  have hlayout := represents_ofType env.package.declarations ht
  unfold realizeUnboxOptional
  refine (produces_llvmType (.optional t)).and_then fun type w₁ _ htype => ?_
  obtain ⟨rfl, rfl⟩ := htype
  refine (produces_boxIsEmpty hvalue).and_then fun empty w₂ h₂ hempty => ?_
  refine (produces_freshLabel .unboxSome).and_then fun someLabel w₃ h₃ _ => ?_
  refine (produces_freshLabel .unboxNone).and_then fun noneLabel w₄ h₄ _ => ?_
  refine (produces_freshLabel .unboxJoin).and_then fun joinLabel w₅ h₅ _ => ?_
  refine .and_then (produces_finishBlock (hempty.mono ((h₃.trans h₄).trans h₅)) not_false)
    fun _ w₆ h₆ _ => ?_
  refine (produces_startBlock someLabel).and_then fun _ w₇ h₇ _ => ?_
  have hvalue₇ := hvalue.mono (((h₂.trans h₃).trans (h₄.trans h₅)).trans (h₆.trans h₇))
  refine (produces_checkTag hvalue₇ _).and_then fun _ w₈ h₈ _ => ?_
  refine (produces_loadFromBox (hvalue₇.mono h₈) t).and_then fun payload w₉ _ hpayload => ?_
  refine (produces_wrapOptional hlayout hvoid hpayload).and_then fun present w₁₀ _ hpresent => ?_
  refine produces_get.and_then fun s w₁₁ h₁₁ _ => ?_
  refine .and_then (produces_finishBlock trivial not_false) fun _ w₁₂ h₁₂ _ => ?_
  refine (produces_startBlock noneLabel).and_then fun _ w₁₃ h₁₃ _ => ?_
  refine .and_then (produces_finishBlock trivial not_false) fun _ w₁₄ h₁₄ _ => ?_
  refine (produces_startBlock joinLabel).and_then fun _ w₁₅ h₁₅ _ => ?_
  have hpresent₁₅ := hpresent.2.mono ((h₁₁.trans h₁₂).trans ((h₁₃.trans h₁₄).trans h₁₅))
  refine .map ?_
  refine .mono (produces_define (t := env.package.declarations.llvmType (.optional t))
    (fun _ => ⟨hlayout.isVoid_eq_false, ?_⟩) (fun _ => rfl) (fun _ => rfl) fun _ => rfl)
    fun _ _ _ h => ⟨rfl, h⟩
  simp only [List.forall_mem_cons, List.not_mem_nil, false_implies, implies_true, and_true]
  exact ⟨hpresent₁₅, hlayout.has_absentOperand w₁₅⟩

end Steps

/-- What is held in an optional above a type of values is held as that type is. -/
theorem represents_of_widens {d : Declarations} {s x : Ty} (h : d.Widens c s (.optional x))
    (hs : s.storage = .simple) (hx : x.storage = .simple) (hse : s.mentionsError = false)
    (hxe : x.mentionsError = false) :
    d.llvmType s = d.llvmType x ∧
      Represents (.ofType s) (d.llvmType s) (d.llvmType (.optional x)) := by
  have hsx : d.Widens c s x :=
    (Declarations.widens_iff.mp h).of_optional (Ty.erased_ne_optional_of_simple hs)
  have hhead := Declarations.head_eq_of_widens hsx hs hx hse hxe
  refine ⟨Declarations.llvmType_eq_of_widens hsx hse hxe (hs.trans hx.symm), ?_⟩
  rw [d.llvmType_optional hx, ← Declarations.optionalType_eq_of_head_eq hhead,
    ← d.llvmType_optional hs]
  exact represents_ofType d hs

theorem produces_realize_step {op : Conversion} {value : Value} {source target : Ty}
    (hop : ∀ s t args ret, op ≠ .adaptCallable s t args ret)
    (hw : env.package.declarations.Widens c source target)
    (hbetween : conversionBetween? source target = some op) (hs : source.IsOfResults)
    (ht : target.IsOfResults)
    (hvalue : w.Holds params value (env.package.declarations.llvmType source)) :
    Produces env params w (realize op value source target) [] fun v w' =>
      w'.Holds params v (env.package.declarations.llvmType target) := by
  have hbox {u : Ty} (hu : u.storage = .box) : env.package.declarations.llvmType u = .ptr :=
    Declarations.llvmType_of_box _ hu
  obtain ⟨hsource, htarget, rfl⟩ | ⟨hsource, htarget, rfl⟩ | ⟨hsource, htarget, rfl⟩ |
    ⟨hsource, htarget, rfl⟩ | ⟨hsource, htarget, rfl⟩ |
    ⟨hsource, htarget, ⟨name, rfl⟩ | ⟨args, ret, rfl⟩⟩ :=
    conversionBetween?_cases hw ht.mentionsError_eq hbetween
  · obtain ⟨x, rfl, hx⟩ := Ty.exists_optional_of_storage htarget
    have hxv := Ty.isOfValues_optional.mp (ht.of_unboxed rfl (by simp))
    obtain ⟨htype, hlayout⟩ := represents_of_widens hw hsource hx hs.mentionsError_eq
      hxv.mentionsError_eq
    refine (produces_llvmType (.optional x)).and_then fun type w₁ _ heq => ?_
    obtain ⟨rfl, rfl⟩ := heq
    exact produces_wrapOptional hlayout (htype ▸ hxv.isVoid_eq _) hvalue
  · rw [hbox htarget]
    exact produces_realizeBox hvalue hsource _
  · obtain ⟨x, rfl, hx⟩ := Ty.exists_optional_of_storage hsource
    have hxv := Ty.isOfValues_optional.mp (hs.of_unboxed rfl (by simp))
    rw [hbox htarget]
    exact produces_realizeBoxOptional hx (hxv.isVoid_eq _) hvalue
  · rw [hbox hsource] at hvalue
    exact produces_realizeUnbox hvalue target
  · obtain ⟨x, rfl, hx⟩ := Ty.exists_optional_of_storage htarget
    have hxv := Ty.isOfValues_optional.mp (ht.of_unboxed rfl (by simp))
    rw [hbox hsource] at hvalue
    exact produces_realizeUnboxOptional hx (hxv.isVoid_eq _) hvalue
  · rw [hbox hsource] at hvalue
    rw [hbox htarget]
    exact produces_realizeRebox hvalue name
  · exact absurd rfl (hop source target args ret)

/-! ### The function of an adapter -/

/-- An entry of an adapter leaves values of type `target` where there are ones of type `source`. -/
def Realizes (d : Declarations) (entry : Option Conversion) (source target : Ty) : Prop :=
  ∀ (env : FunctionEnv) (params : List Value) (w : World) (v : Value),
    env.package.declarations = d → w.Holds params v (d.llvmType source) →
      Produces env params w (realizeEntry entry v source target) (adaptedEntry entry) fun u w' =>
        w'.Holds params u (d.llvmType target)

/-- Nothing is converted where the types are held alike. -/
theorem realizes_none {d : Declarations} {source target : Ty} (h : Alike d source target) :
    Realizes d none source target :=
  fun _ _ _ _ _ hv => .pure (h.llvmType_eq ▸ hv)

theorem produces_realizeAll {d : Declarations} (hd : env.package.declarations = d)
    {args : List (Option Conversion)} {ps ps' : List Ty} {values : List Value}
    (hlen : ps'.length = ps.length) (hargs : args.length = ps.length)
    (hentry : ∀ e ∈ args.zip (ps'.zip ps), Realizes d e.1 e.2.1 e.2.2)
    (hvalues : List.Forall₂ (fun v t => w.Holds params v (d.llvmType t)) values ps') :
    Produces env params w (realizeAll args (values.zip (ps'.zip ps))) (adaptedAll args) fun vs w' =>
      List.Forall₂ (fun v t => w'.Holds params v (d.llvmType t)) vs ps := by
  induction args generalizing w ps ps' values with
  | nil =>
      obtain rfl := List.eq_nil_of_length_eq_zero hargs.symm
      exact .pure .nil
  | cons entry args ih =>
      obtain _ | ⟨p, ps⟩ := ps
      · cases hargs
      obtain _ | ⟨p', ps'⟩ := ps'
      · cases hlen
      obtain _ | ⟨hvalue, hvalues⟩ := hvalues
      rw [List.zip_cons_cons, List.zip_cons_cons] at *
      rw [realizeAll, adaptedAll]
      refine (hentry _ List.mem_cons_self env params w _ hd hvalue).bind fun v w₁ h₁ hv => ?_
      refine .map ?_
      refine .mono (ih (Nat.succ.inj hlen) (Nat.succ.inj hargs)
        (fun e he => hentry e (List.mem_cons_of_mem _ he)) (hvalues.imp fun _ _ h => h.mono h₁))
        fun vs w₂ h₂ hvs => .cons (hv.mono h₂) hvs

def adapterParams (types : List LType) : List Value :=
  .pointer .context :: types.zipIdx.map fun (t, i) => ⟨t, .param i⟩

theorem nodup_adapterParams (types : List LType) :
    ((adapterParams types).map (·.operand)).Nodup := by
  have hmap : (adapterParams types).map (·.operand) =
      .context :: (List.range types.length).map Operand.param := by
    have hsnd := List.zipIdx_map_snd 0 types
    simp only [adapterParams, List.map_cons, List.map_map, Value.pointer]
    rw [List.range_eq_range', ← hsnd, List.map_map]
    rfl
  rw [hmap, List.nodup_cons]
  constructor
  · simp
  · exact List.nodup_range.map fun _ _ h => Operand.param.inj h

theorem runIn_mapM_param {types : List LType} (hvoid : ∀ t ∈ types, t.isVoid = false) (start : Nat) :
    (((types.map fun t : LType => ((none : Option VariableId), t)).zipIdx start).mapM
      fun (((id?, type), i) : (Option VariableId × LType) × Nat) => do
        let value : Value := if type.isVoid then .void else ⟨type, .param i⟩
        if let some id := id? then
          declareArguments.bind id value
        return value).runIn env w =
      (.ok (paramValues start types), w) := by
  induction types generalizing start with
  | nil => rfl
  | cons t types ih =>
      obtain ⟨ht, hrest⟩ := List.forall_mem_cons.mp hvoid
      rw [List.map_cons, List.zipIdx_cons, List.mapM_cons, runIn_bind, paramValues_cons]
      simp only [ht, Bool.false_eq_true, if_false, runIn_pure, runIn_bind, ih hrest (start + 1)]

theorem runIn_declareArguments (hstyle : env.style = .closure []) {types : List LType}
    (hvoid : ∀ t ∈ types, t.isVoid = false) :
    (declareArguments (types.map fun t => (none, t))).runIn env w =
      (.ok (adapterParams types), w) := by
  have hfirst : (declareArguments.declareFirst env.style).runIn env w =
      (.ok [.pointer .context], w) := by
    rw [hstyle]
    rfl
  have hfilter : (paramValues 0 types).filter (!·.isVoid) = paramValues 0 types := by
    rw [List.filter_eq_self]
    intro v hv
    obtain ⟨t, i, hmem, rfl⟩ := mem_paramValues.mp hv
    simpa [Value.isVoid] using hvoid t (List.fst_mem_of_mem_zipIdx hmem)
  refine (runIn_bind_of_ok runIn_read _).trans ?_
  refine (runIn_bind_of_ok hfirst _).trans ?_
  refine (runIn_bind_of_ok (runIn_mapM_param hvoid 0) _).trans ?_
  rw [runIn_pure, hfilter]
  rfl

theorem succeeds_call {ret : LType} {function : Nat} {args : List Value}
    (hw : w.function.TypeChecks params) (hfunction : w.Has params (.register function) .ptr)
    (hargs : ∀ v ∈ args, v.TypeChecks params w.function.code) :
    Succeeds env w (emitCall ret (.register function) args) fun v w' =>
      w'.function.TypeChecks params ∧ w'.refs = w.refs ∧ w'.Holds params v ret ∧
        ∃ i, w'.function.code = w.function.code ++ [i] ∧
          i.indirectCall? = some (ret, .register function, args) := by
  have hfilter : args.filter (!·.isVoid) = args := by
    rw [List.filter_eq_self]
    intro v hv
    simpa using (hargs v hv).1
  unfold emitCall
  dsimp only
  rw [hfilter]
  split
  next hvoid =>
    obtain rfl := LType.eq_void hvoid
    let i : Instr := .callVoid (.register function) args
    have hadd : (w.function.add i w.function.nextRegister).TypeChecks params :=
      hw.add ⟨hfunction, hargs⟩ (by simp [i, Instr.dst?])
    exact .of_runIn (v := ⟨w.function.add i w.function.nextRegister, w.refs⟩) rfl
      ⟨hadd, rfl, ⟨rfl, .none⟩, i, FunctionState.code_add _ i _, rfl⟩
  next hvoid =>
    let n := w.function.nextRegister
    let i : Instr := .call n ret (.register function) args
    have hadd : (w.function.add i (n + 1)).TypeChecks params :=
      hw.add ⟨by simpa using hvoid, hfunction, hargs⟩ (by simp [i, n, Instr.dst?, List.range_succ])
    have hcode := w.function.code_add i (n + 1)
    have hmem : i ∈ (w.function.add i (n + 1)).code := by simp [hcode]
    exact .of_runIn (a := ⟨ret, .register n⟩) (v := ⟨w.function.add i (n + 1), w.refs⟩) rfl
      ⟨hadd, rfl, ⟨rfl, .register hmem rfl rfl⟩, i, hcode, rfl⟩

theorem succeeds_returning {v : Value} {ret : Ty} (hw : w.function.TypeChecks params)
    (hv : w.Holds params v (env.package.declarations.llvmType ret))
    (hparams : (params.map (·.operand)).Nodup) :
    Succeeds env w (do
      emitReturn v
      finished (← llvmType ret) params) fun f w' =>
      f.TypeChecks ∧ f.ret = env.package.declarations.llvmType ret ∧ f.params = params ∧
        f.code = w.function.code ∧ w'.refs = w.refs := by
  let exit : Terminator := if v.isVoid then .retVoid else .ret v
  let f : FunctionDef :=
    { name := env.name, ret := env.package.declarations.llvmType ret, params
      blocks := w.function.blocks ++
        [{ label := w.function.label, body := w.function.body, exit }] }
  have hcode : f.code = w.function.code := by
    simp [FunctionDef.code, FunctionState.code, f]
  have hexit : exit.TypeChecks params w.function.code := by
    show (if v.isVoid then Terminator.retVoid else .ret v).TypeChecks params w.function.code
    split
    next => trivial
    next hvoid => exact hv.typeChecks (hv.1 ▸ by simpa [Value.isVoid] using hvoid)
  refine .of_runIn (a := f) (v := ⟨_, w.refs⟩) rfl ⟨⟨?_, ?_, ?_, hparams⟩, rfl, rfl, hcode, rfl⟩
  · exact hcode ▸ hw.instrs
  · intro b hb
    rw [hcode]
    rcases List.mem_append.mp hb with hb | hb
    · obtain ⟨hchecks, hreturn⟩ := hw.exits b.exit (List.mem_map_of_mem hb)
      exact ⟨hchecks, Terminator.returns_of_not_isReturn hreturn _⟩
    · obtain rfl := List.mem_singleton.mp hb
      exact ⟨hexit, returns_exit hv.1⟩
  · rw [hcode, hw.registers]
    exact List.nodup_range

theorem forall₂_holds_params {d : Declarations} {ps : List Ty} {start : Nat}
    (h : ∀ v ∈ paramValues start (ps.map d.llvmType), v ∈ params) :
    List.Forall₂ (fun v t => w.Holds params v (d.llvmType t)) (paramValues start (ps.map d.llvmType)) ps := by
  induction ps generalizing start with
  | nil => exact .nil
  | cons p ps ih =>
      rw [List.map_cons, paramValues_cons] at h ⊢
      obtain ⟨hp, hrest⟩ := List.forall_mem_cons.mp h
      exact .cons ⟨rfl, .param hp⟩ (ih hrest)

section Held

variable {d : Declarations} {vs : List Value} {ts : List Ty}
  (h : List.Forall₂ (fun v t => w.Holds params v (d.llvmType t)) vs ts)
include h

theorem map_type_of_forall₂_holds : vs.map (·.type) = ts.map d.llvmType := by
  induction h with
  | nil => rfl
  | cons hv _ ih => rw [List.map_cons, List.map_cons, hv.1, ih]

theorem typeChecks_of_forall₂_holds (hvoid : ∀ t ∈ ts, (d.llvmType t).isVoid = false) :
    ∀ v ∈ vs, v.TypeChecks params w.function.code := by
  induction h with
  | nil => simp
  | cons hv _ ih =>
      obtain ⟨ht, hrest⟩ := List.forall_mem_cons.mp hvoid
      exact List.forall_mem_cons.mpr ⟨hv.typeChecks ht, ih hrest⟩

end Held

theorem runIn_mapM_llvmType (ts : List Ty) :
    (ts.mapM llvmType).runIn env w = (.ok (ts.map env.package.declarations.llvmType), w) := by
  induction ts with
  | nil => rfl
  | cons t ts ih =>
      have ht : (llvmType t).runIn env w = (.ok (env.package.declarations.llvmType t), w) := rfl
      rw [List.mapM_cons, runIn_bind, ht]
      dsimp only
      rw [runIn_bind, ih]
      rfl

theorem succeeds_adapterFunction {d : Declarations} (hd : env.package.declarations = d)
    (hstyle : env.style = .closure []) {ps ps' : List Ty} {r r' : Ty}
    {args : List (Option Conversion)} {ret : Option Conversion} {m : ModuleState}
    (hlen : ps'.length = ps.length) (hargs : args.length = ps.length)
    (hps : ∀ t ∈ ps, (d.llvmType t).isVoid = false)
    (hps' : ∀ t ∈ ps', (d.llvmType t).isVoid = false)
    (hentry : ∀ e ∈ args.zip (ps'.zip ps), Realizes d e.1 e.2.1 e.2.2) (hret : Realizes d ret r r') :
    Succeeds env ⟨.start 0, m⟩ (adapterFunction ps ps' r r' args ret) fun f w' =>
        f.Adapts d ps ps' r r' ∧ Makes d (adaptedAll args ++ adaptedEntry ret) ⟨.start 0, m⟩ w' := by
  subst hd
  let d := env.package.declarations
  let types := ps'.map d.llvmType
  let params := adapterParams types
  have hstart : (FunctionState.start 0).TypeChecks params := by
    constructor <;> simp [FunctionState.code, FunctionState.exits, FunctionState.start]
  have hcontext {w : World} : w.Has params .context .ptr := .param List.mem_cons_self
  unfold adapterFunction
  refine .bind_of_runIn (runIn_mapM_llvmType ps') ?_
  refine .bind_of_runIn (runIn_declareArguments hstyle (by simpa using hps')) ?_
  refine (produces_loadWord hcontext 0 hstart).bind_true fun wrapped w₁ hwrapped => ?_
  obtain ⟨h₁, hhas, function, rfl, hfunction⟩ := hwrapped
  refine (produces_loadWord hcontext 1 h₁.typeChecks).bind_true fun wrappedContext w₂ hwrapped => ?_
  obtain ⟨h₂, hhas', context, rfl, hcontext⟩ := hwrapped
  have hvalues : List.Forall₂ (fun v t => w₂.Holds params v (d.llvmType t))
      (paramValues 0 types) ps' :=
    forall₂_holds_params fun v hv => List.mem_cons_of_mem _ hv
  refine (produces_realizeAll rfl hlen hargs hentry hvalues h₂.typeChecks).bind_true
    fun converted w₃ hall => ?_
  obtain ⟨h₃, hconverted⟩ := hall
  have hpassed : ∀ v ∈ Value.pointer (.register context) :: converted,
      v.TypeChecks params w₃.function.code :=
    List.forall_mem_cons.mpr ⟨⟨rfl, hhas'.mono h₃⟩, typeChecks_of_forall₂_holds hconverted hps⟩
  refine .bind_of_runIn (a := d.llvmType r) (v := w₃) rfl ?_
  refine (succeeds_call h₃.typeChecks (hhas.mono (h₂.trans h₃)) hpassed).bind_true
    fun result w₄ hcalled => ?_
  obtain ⟨h₄, hrefs, hresult, i, hcode, hcall⟩ := hcalled
  refine (hret env params w₄ result rfl hresult h₄).bind_true fun v w₅ hconverts => ?_
  obtain ⟨h₅, hv⟩ := hconverts
  refine (succeeds_returning h₅.typeChecks hv (nodup_adapterParams types)).mono
    fun f w' hreturned => ?_
  obtain ⟨hchecks, hf, hparams, hfcode, hfrefs⟩ := hreturned
  refine ⟨⟨hchecks, hf, ?_, ?_⟩, ?_⟩
  · exact ⟨_, hparams, map_type_paramValues 0 types⟩
  · have h₁₃ := (h₁.trans h₂).trans h₃
    have hsub (j : Instr) (hj : j ∈ w₃.function.code) : j ∈ f.code := by
      rw [hfcode]
      exact h₅.code.subset (hcode ▸ List.mem_append_left _ hj)
    refine ⟨function, context, converted, ?_, map_type_of_forall₂_holds hconverted,
      (hfunction.mono fun _ => (h₂.trans h₃).code.subset).mono hsub,
      (hcontext.mono fun _ => h₃.code.subset).mono hsub⟩
    -- What comes before and after the call calls the run-time library only.
    rw [hfcode, h₅.indirectCalls_eq, hcode, List.filterMap_append, h₁₃.indirectCalls_eq]
    simp [hcall, FunctionState.code, FunctionState.start, Value.pointer, d]
  · have hcall : Makes d [] w₃ w₄ := .of_synthesized_eq (congrArg _ hrefs)
    have hreturn : Makes d [] w₅ w' := .of_synthesized_eq (congrArg _ hfrefs)
    have hmakes := ((((h₁.trans h₂).trans h₃).makes.trans hcall).trans h₅.makes).trans hreturn
    simpa using hmakes

/-! ### All conversions -/

/-- A function made along the way. -/
theorem succeeds_nested {α : Type} {d : Declarations} {l : List (Ty × Ty)} {name : String}
    {count : Nat} {style : ArgumentStyle} {step : Emit α} {Q : α → Prop}
    (h : Succeeds { env with name, variableCount := count, style } ⟨.start count, w.refs⟩ step
      fun a w' => Q a ∧ Makes d l ⟨.start count, w.refs⟩ w') :
    Succeeds env w (nested name count style step) fun a w' =>
      Q a ∧ w'.function = w.function ∧ Makes d l w w' := by
  obtain ⟨a, w', hrun, ha, hmakes⟩ := h.exists_ok trivial
  refine .of_runIn (a := a) (v := ⟨w.function, w'.refs⟩) ?_ ⟨ha, rfl, hmakes⟩
  rw [runIn_nested, hrun]

/-- A callable is made whatever the function under construction is like. -/
theorem succeeds_makeCallable (function : Global) (bound : Operand) :
    Succeeds env w (makeCallable (.global function) bound) fun v w' =>
      v.type = .ptr ∧ w'.refs.synthesized = w.refs.synthesized ∧
        ∀ params, w.function.TypeChecks params → w.Has params bound .ptr →
          Advances env.package.declarations params [] w w' ∧ w'.Holds params v .ptr := by
  obtain ⟨v, w', hrun, hv, hrefs⟩ : ∃ v w',
      (makeCallable (.global function) bound).runIn env w = (.ok v, w') ∧ v.type = .ptr ∧
        w'.refs.synthesized = w.refs.synthesized :=
    ⟨_, _, rfl, rfl, rfl⟩
  refine .of_runIn hrun ⟨hv, hrefs, fun params hw hbound => ?_⟩
  have hchecks : Succeeds env w (makeCallable (.global function) bound) _ :=
    produces_makeCallable (.global function) hbound hw
  exact hchecks.post v w' hrun

section Adapting

variable {d : Declarations} (hd : env.package.declarations = d) {source target : Ty}
  {value : Value} {ps ps' : List Ty} {r r' : Ty} {args : List (Option Conversion)}
  {ret : Option Conversion}
include hd

/--
A callable is adapted by a function, and its conversions may make further ones.  The
function under construction type checks afterwards if it did before.
-/
theorem succeeds_realize_adaptCallable (hsource : source.IsOfResults) (htarget : target.IsOfResults)
    (hs : source.unboxed = .callable ps r) (ht : target.unboxed = .callable ps' r')
    (hlen : ps'.length = ps.length) (hargs : args.length = ps.length)
    (hentry : ∀ e ∈ args.zip (ps'.zip ps), Realizes d e.1 e.2.1 e.2.2) (hret : Realizes d ret r r') :
    Succeeds env w (realize (.adaptCallable source target args ret) value source target) fun v w' =>
      v.type = .ptr ∧ Makes d (adapted (.adaptCallable source target args ret)) w w' ∧
        ∀ params, w.function.TypeChecks params → w.Has params value.operand .ptr →
          Advances d params (adapted (.adaptCallable source target args ret)) w w' ∧
            w'.Holds params v .ptr := by
  subst hd
  obtain ⟨hps, -⟩ := Ty.isOfValues_callable.mp (hsource.of_unboxed hs (by simp))
  obtain ⟨hps', -⟩ := Ty.isOfValues_callable.mp (htarget.of_unboxed ht (by simp))
  rw [realize_adaptCallable hs ht, adapted]
  refine .bind_of_runIn (runIn_liftM _) ?_
  refine (succeeds_nested (succeeds_adapterFunction rfl rfl hlen hargs
    (fun t ht => (hps t ht).isVoid_eq _) (fun t ht => (hps' t ht).isVoid_eq _) hentry hret)).bind_true
    fun f w₁ hnested => ?_
  obtain ⟨hf, hfunction, hmakes⟩ := hnested
  let w₂ : World := ⟨w₁.function, ((pushFunction (.function f)).run w₁.refs).2⟩
  refine .bind_of_runIn (v := w₂) (runIn_liftM _) ?_
  have hpushed : Makes env.package.declarations [(source, target)] w₁ w₂ :=
    ⟨[.function f], rfl, .cons ⟨f, ps, ps', r, r', rfl, hs, ht, hf⟩ .nil⟩
  have hmade : Makes env.package.declarations
      (adaptedAll args ++ adaptedEntry ret ++ [(source, target)]) w w₂ := by
    have hname : Makes env.package.declarations [] w ⟨w.function, (nextAdapterName.run w.refs).2⟩ :=
      .of_synthesized_eq (synthesized_nextAdapterName w.refs)
    exact (hname.trans hmakes).trans hpushed
  have hfunction₂ : w₂.function = w.function := hfunction
  refine (succeeds_makeCallable _ _).mono fun v w' hcallable => ?_
  obtain ⟨hv, hrefs, hchecks⟩ := hcallable
  refine ⟨hv, ?_, ?_⟩
  · rw [← List.append_nil (_ ++ [(source, target)])]
    exact hmade.trans (.of_synthesized_eq hrefs)
  · intro params hw hvalue
    obtain ⟨hadv, hholds⟩ := hchecks params (hfunction₂ ▸ hw)
      (show Operand.HasType _ _ _ _ from hfunction₂ ▸ hvalue)
    have hadv₂ : Advances env.package.declarations params
        (adaptedAll args ++ adaptedEntry ret ++ [(source, target)]) w w₂ :=
      .of_code_eq hw (congrArg _ hfunction₂) (congrArg _ hfunction₂) (congrArg _ hfunction₂) hmade
    refine ⟨?_, hholds⟩
    rw [← List.append_nil (_ ++ [(source, target)])]
    exact hadv₂.trans hadv

end Adapting

theorem realizes_of_entry {d : Declarations} {entry : Option Conversion} {source target : Ty}
    (hnone : entry = none → Alike d source target)
    (hsome : ∀ op, entry = some op → Realizes d (some op) source target) :
    Realizes d entry source target := by
  cases entry with
  | none => exact realizes_none (hnone rfl)
  | some op => exact hsome op rfl

/-- The code of a step from a type to one above it does what the step says, also inside adapters. -/
theorem realizes_of_everywhere {d : Declarations} {op : Conversion} {source target : Ty}
    (h : Everywhere (IsWidening d c) (Alike d) op source target) (hs : source.IsOfResults)
    (ht : target.IsOfResults) : Realizes d (some op) source target := by
  -- The conversions of an adapter have the types of its positions, which are of results again.
  induction h with
  | @step op source target hop hwidens =>
      intro env params w v hd hv
      subst hd
      obtain ⟨hw, hbetween⟩ := hwidens hop
      have hadapted : adaptedEntry (some op) = [] := by
        cases op with
        | adaptCallable s t args ret => exact absurd rfl (hop s t args ret)
        | _ => rfl
      rw [hadapted, realizeEntry]
      exact produces_realize_step hop hw hbetween hs ht hv
  | @adapt source target ps ps' r r' args ret _ hsource htarget hlen hargs hnone _ hretNone _
      ihargs ihret =>
      obtain ⟨hps, hr⟩ := Ty.isOfValues_callable.mp (hs.of_unboxed hsource (by simp))
      obtain ⟨hps', hr'⟩ := Ty.isOfValues_callable.mp (ht.of_unboxed htarget (by simp))
      intro env params w v hd hv hw
      rw [d.llvmType_of_box (Ty.storage_of_unboxed_callable hsource)] at hv
      rw [d.llvmType_of_box (Ty.storage_of_unboxed_callable htarget), realizeEntry, adaptedEntry]
      refine .mono (succeeds_realize_adaptCallable hd hs ht hsource htarget hlen hargs
        (fun e he => realizes_of_entry (hnone e he) fun op hop => ?_)
        (realizes_of_entry hretNone fun op hop => ihret op hop hr hr')) ?_
      · obtain ⟨hmem', hmem⟩ := List.of_mem_zip (List.of_mem_zip he).2
        exact ihargs e he op hop (hps' _ hmem').isOfResults (hps _ hmem).isOfResults
      · intro u w' ⟨_, _, hchecks⟩
        exact hd ▸ hchecks params hw hv.2

theorem everywhere_callableAdapter_of_widens {d : Declarations} {a b ret ret' : Ty}
    {ps ps' : List Ty} (h : d.Widens c a b) (ha : a.unboxed = .callable ps ret)
    (hb : b.unboxed = .callable ps' ret') (hae : a.mentionsError = false)
    (hbe : b.mentionsError = false) :
    Everywhere (IsWidening d c) (Alike d) (callableAdapter a b) a b := by
  obtain ⟨hlen, hparams, hret⟩ := callableWidens_of_widens h ha hb
  obtain ⟨hpe, hre⟩ := Ty.mentionsError_of_unboxed_callable hae ha
  obtain ⟨hpe', hre'⟩ := Ty.mentionsError_of_unboxed_callable hbe hb
  have hbetween {s t : Ty} (hw : d.Widens c s t) (hs : s.mentionsError = false)
      (ht : t.mentionsError = false) : Between (IsWidening d c) (Alike d) s t :=
    between_of_widens (fun _ _ => alike_of_conversionBetween?_eq_none)
      (fun _ _ _ hw _ _ hop _ => ⟨hw, hop⟩) hw hs ht
  refine everywhere_callableAdapter ha hb hlen (fun hop => ?_) (fun q hq => ?_)
    (hbetween hret hre hre')
  · exact absurd (callableAdapter_eq ha hb) (hop _ _ _ _)
  · obtain ⟨hmem', hmem⟩ := List.of_mem_zip hq
    exact hbetween (hparams q hq) (hpe' _ hmem') (hpe _ hmem)

/--
A callable can be adapted to any callable above it, where neither mentions the error type
and nothing occurs in both only as a result.  This succeeds wherever a function is being
generated, and makes a function for each pair of callables that are adapted, at any depth,
and the last for the two themselves.  Each type checks, takes the context and the
parameters of the second callable of its pair, and returns the result of that.  It calls
what its context holds exactly once, with the context of this and values of the types of
its parameters, and receives a value of the type of its result.
-/
theorem exists_adapters_of_isSubtype {a b : Ty} (ha : a.isCallable = true)
    (hb : b.isCallable = true) (hae : a.mentionsError = false) (hbe : b.mentionsError = false)
    (han : a.onlyReturnsNothing = true) (hbn : b.onlyReturnsNothing = true)
    (h : env.package.declarations.isSubtype c a b = true) (value : Value) (w : World) :
    ∃ v w' new, (realize (callableAdapter a b) value a b).runIn env w = (.ok v, w') ∧
      v.type = .ptr ∧ w'.refs.synthesized = w.refs.synthesized ++ new ∧
      List.Forall₂ (IsAdapter env.package.declarations) (callableAdapter a b).adapted new ∧
      (callableAdapter a b).adapted.getLast? = some (a, b) ∧
      ∀ s t args ret, (callableAdapter a b).Contains (.adaptCallable s t args ret) →
        (s, t) ∈ (callableAdapter a b).adapted := by
  obtain ⟨ps, ret, hps⟩ := Ty.exists_callable_of_isCallable ha
  obtain ⟨ps', ret', hps'⟩ := Ty.exists_callable_of_isCallable hb
  have hw := Declarations.widens_of_isSubtype h
  have hall := everywhere_callableAdapter_of_widens hw hps hps' hae hbe
  have hav : a.IsOfValues := ⟨hae, han⟩
  have hbv : b.IsOfValues := ⟨hbe, hbn⟩
  rw [callableAdapter_eq hps hps'] at hall ⊢
  cases hall with
  | step hop _ => exact absurd rfl (hop _ _ _ _)
  | adapt _ hs ht hlen hargs hnone hsome hretNone hretSome =>
      obtain ⟨hpv, hrv⟩ := Ty.isOfValues_callable.mp (hav.isOfResults.of_unboxed hs (by simp))
      obtain ⟨hpv', hrv'⟩ := Ty.isOfValues_callable.mp (hbv.isOfResults.of_unboxed ht (by simp))
      have hentry e he := realizes_of_entry (hnone e he) fun op hop =>
        have hmem := List.of_mem_zip (List.of_mem_zip he).2
        realizes_of_everywhere (hsome e he op hop) (hpv' _ hmem.1).isOfResults
          (hpv _ hmem.2).isOfResults
      have hret := realizes_of_entry hretNone fun op hop =>
        realizes_of_everywhere (hretSome op hop) hrv hrv'
      -- `realizes_of_everywhere` says nothing of `value`, which need not be a value of the function
      -- under construction: the adapter is generated all the same.
      obtain ⟨v, w', hrun, hv, ⟨new, hnew, hadapters⟩, -⟩ := (succeeds_realize_adaptCallable rfl
        hav.isOfResults hbv.isOfResults hs ht hlen hargs hentry hret).exists_ok trivial
      refine ⟨v, w', new, hrun, hv, hnew, hadapters, ?_, fun _ _ _ _ => mem_adapted_of_contains⟩
      rw [adapted, List.getLast?_concat]

def plainEnv : FunctionEnv where
  package := {}
  name := "main"
  arena := {}
  variableCount := 0
  style := .free

def takesCallback : Ty :=
  .callable [.callable [.int] .nothing] .int

def takesOptionalCallback : Ty :=
  .callable [.callable [.optional .int] .nothing] (.optional .int)

/-- The callable that is passed on is adapted as well, the other way. -/
theorem exists_adapters_takesCallback :
    takesCallback.isCallable = true ∧ takesOptionalCallback.isCallable = true ∧
      takesCallback.mentionsError = false ∧ takesOptionalCallback.mentionsError = false ∧
      takesCallback.onlyReturnsNothing = true ∧ takesOptionalCallback.onlyReturnsNothing = true ∧
      plainEnv.package.declarations.isSubtype {} takesCallback takesOptionalCallback = true ∧
      let d := plainEnv.package.declarations
      ∃ v w' inner outer,
        (realize (callableAdapter takesCallback takesOptionalCallback) (.pointer .null) takesCallback
          takesOptionalCallback).runIn plainEnv ⟨.start 0, {}⟩ = (.ok v, w') ∧
        w'.refs.synthesized = [.function inner, .function outer] ∧
        inner.Adapts d [.optional .int] [.int] .nothing .nothing ∧
        outer.Adapts d [.callable [.int] .nothing] [.callable [.optional .int] .nothing] .int
          (.optional .int) := by
  have hsubtype : plainEnv.package.declarations.isSubtype {} takesCallback takesOptionalCallback =
      true := by
    decide +kernel
  refine ⟨rfl, rfl, rfl, rfl, rfl, rfl, hsubtype, ?_⟩
  intro d
  have hadapted : (callableAdapter takesCallback takesOptionalCallback).adapted =
      [(.callable [.optional .int] .nothing, .callable [.int] .nothing),
        (takesCallback, takesOptionalCallback)] := by
    decide +kernel
  obtain ⟨v, w', new, hrun, -, hnew, hall, -⟩ := exists_adapters_of_isSubtype rfl rfl rfl rfl rfl rfl
    hsubtype (.pointer .null) ⟨.start 0, {}⟩
  rw [hadapted] at hall
  obtain _ | ⟨hinner, _ | ⟨houter, _ | _⟩⟩ := hall
  obtain ⟨inner, _, _, _, _, rfl, ⟨⟩, ⟨⟩, hinner⟩ := hinner
  obtain ⟨outer, _, _, _, _, rfl, ⟨⟩, ⟨⟩, houter⟩ := houter
  exact ⟨v, w', inner, outer, hrun, hnew, hinner, houter⟩

end Emit

end Boxlang
