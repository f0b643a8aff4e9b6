import Boxlang.Emit.Expr
import Boxlang.Proofs.Discipline.Conversion
import Boxlang.Proofs.Elaboration.Judgement

/-!
# Code for expressions keeps to a discipline

Where variables are bound to what is at hand, so is the value of every expression, and the
functions of its closures keep to the discipline.  That the value is of the LLVM type of
the expression is known of operands only where types are minded, and then it is left to
the generator to see to that.
-/

namespace Boxlang

namespace Emit

open Llvm

variable {p : Package} {D : Discipline p} {env : FunctionEnv} {owed : List Label}
  {pt : Point D.Ghost}

/-! ### Reading the results of analysis -/

theorem reads_node (slot : Slot) : Reads env (node slot) (· = env.arena.get slot) :=
  .of_runIn fun _ => rfl

theorem reads_resolved {α : Type} (a? : Option α) (name : Ident) :
    Reads env (resolved a? name) (a? = some ·) := by
  intro w
  cases a? with
  | none => exact .of_error rfl
  | some a => exact .of_runIn (runIn_pure a) ⟨rfl, rfl⟩

theorem reads_typeOf (slot : Slot) :
    Reads env (typeOf slot) ((env.arena.get slot).type? = some ·) := by
  intro w
  unfold typeOf
  refine (reads_node slot w).bind fun e w₁ he => ?_
  obtain ⟨rfl, rfl⟩ := he
  split
  next t ht => exact .of_runIn (runIn_pure t) ⟨rfl, ht⟩
  next => exact .of_error (runIn_throw _)

/-! ### Nodes without operands -/

/-- Nothing is loaded of a variable of type void. -/
theorem keeps_readVariable (hbound : D.Bound pt) (id : VariableId) :
    D.Keeps env owed pt (readVariable id) fun v pt' => D.Gives pt' v := by
  unfold readVariable
  refine .get ?_
  split
  next => exact .throw _
  next v hv =>
    have hgives := hbound id v hv
    split
    next => exact .pure hgives
    next hslot =>
      rw [Bool.or_eq_true, not_or] at hslot
      refine .map ((keeps_load (hgives.isHeld hslot.2) hgives.has).mono fun _ _ ho => ?_)
      exact ⟨ho, hgives.isGiven⟩

theorem keeps_genString (value : String) :
    D.Keeps env owed pt (genString value) fun v pt' => D.Gives pt' v := by
  unfold genString
  refine (D.note (.string value)).bind fun bytes pt₁ _ hbytes => keeps_callRuntime (by decide) ?_
  simpa using ⟨Frame.Gives.pointer hbytes, gives_word (has_int _) 64⟩

theorem keeps_genNoValue (t : Ty) :
    D.Keeps env owed pt (genNoValue t) fun v pt' => D.Gives pt' v := by
  unfold genNoValue
  split
  next => exact .map ((D.note (.box _ has_null)).mono fun _ _ => .pointer)
  all_goals
    refine .read (reads_llvmType t) fun type htype => .pure ?_
    exact .of_type (has_absentOperand _) htype

theorem keeps_protocolMethod {this : Operand} (hthis : D.Has pt this) {protocol : String}
    (hprotocol : D.IsName protocol) (method : String) :
    D.Keeps env owed pt (protocolMethod this protocol method) fun o pt' => D.Has pt' o := by
  unfold protocolMethod
  refine (keeps_loadTag hthis).bind fun tag pt₁ _ htag => ?_
  refine (keeps_conformanceOf htag hprotocol).bind fun conformance pt₂ _ hconformance => ?_
  refine (D.note (.string method)).bind fun selector pt₃ h₃ hselector => .map ?_
  refine (keeps_callRuntime (by decide) ?_).mono fun _ _ h => h.has
  simpa using ⟨Frame.Gives.pointer (h₃.has hconformance), Frame.Gives.pointer hselector⟩

theorem keeps_genTypeExpr {t : Ty} (ht : D.IsType t) :
    D.Keeps env owed pt (genTypeExpr t) fun v pt' => D.Gives pt' v := by
  unfold genTypeExpr
  split
  next inner hu =>
    have hinner := D.pervasive.typeValue.mp (D.pervasive.of_unboxed ht hu)
    exact .map ((D.note (.type hinner)).mono fun _ _ => .pointer)
  next => exact .throw _

theorem keeps_foldBoxed? {op : Conversion} (hop : ∀ t, op = .box t none → D.IsType t)
    (kind : ExprKind) :
    D.Keeps env owed pt (foldBoxed? op kind) fun folded pt' => ∀ v ∈ folded, D.Gives pt' v := by
  unfold foldBoxed?
  split
  next =>
    refine (D.note (.type (hop _ rfl))).bind fun tag _ _ htag => ?_
    refine (D.note (.box _ htag)).bind fun box _ _ hbox => .pure ?_
    rintro _ ⟨⟩
    exact .pointer hbox
  next => exact .pure (by simp)

/-- A function of the package is called. -/
theorem keeps_callFunction {d : Declarations} {id : FunctionId} {ret : LType} {args : List Value}
    (hp : env.package = p) (hret : D.Typed → ret.IsGiven) (hargs : ∀ v ∈ args, D.Gives pt v) :
    D.Keeps env owed pt (do
      let x ← functionSymbol d (p.signature id)
      emitCall ret (.global x) args) fun v pt' => D.Gives pt' v := by
  have hcall : D.Keeps env owed pt (do
      let x ← functionSymbol d (p.signature id)
      emitCall ret (.global x) args) fun v pt' => D.Has pt' v.operand ∧ v.type = ret :=
    D.callFunction d id ret args hp fun x pt' h hx =>
      keeps_emitCall hret hx (h.forall_gives hargs)
  exact hcall.mono fun v _ ⟨hv, htype⟩ => ⟨hv, fun htyped => htype ▸ hret htyped⟩

/-! ### Operands -/

/--
The generator keeps to the discipline at an expression.  Its value is at hand, and of the
LLVM type of the expression where types are minded.
-/
structure Frame.Generates (F : Frame) (p : Package) (a : Arena) (generate : Generate)
    (slot : Slot) : Prop where
  keeps : ∀ {env owed pt}, env.package = p → env.arena = a → F.Bound pt →
    F.Keeps env owed pt (generate slot) fun v pt' => F.Has pt' v.operand ∧
      (F.Typed → v.type = p.declarations.llvmType (a.typeAt slot))

theorem Frame.Generates.gives {F : Frame} {pt : Point F.Ghost} {generate : Generate} {slot : Slot}
    (h : F.Generates p env.arena generate slot) (hp : env.package = p) (hbound : F.Bound pt) :
    F.Keeps env owed pt (generate slot) fun v pt' => F.Gives pt' v :=
  (h.keeps hp rfl hbound).mono fun _ _ ⟨hv, htype⟩ =>
    ⟨hv, fun htyped => htype htyped ▸ p.declarations.isGiven_llvmType _⟩

section Node

variable {generate : Generate} {slot : Slot} (hp : env.package = p) (hbound : D.Bound pt)
include hp hbound

theorem keeps_operands {args : List Slot}
    (hargs : ∀ c ∈ args, D.Generates p env.arena generate c) :
    D.Keeps env owed pt (args.mapM generate) fun vs pt' => ∀ v ∈ vs, D.Gives pt' v :=
  .mapM (fun hv h => h.gives hv) fun c hc _ h => (hargs c hc).gives hp (h.bound hbound)

theorem keeps_genCall (function : Ident) {arguments : Arguments} (target? : Option FunctionId)
    (hargs : ∀ c ∈ arguments.args, D.Generates p env.arena generate c) :
    D.Keeps env owed pt (genCall generate function arguments target?) fun v pt' =>
      D.Gives pt' v := by
  unfold genCall
  refine .read reads_read fun env' henv => .read (reads_resolved _ _) fun target _ => ?_
  subst henv hp
  refine (keeps_operands rfl hbound hargs).bind fun args pt₁ _ hargs => ?_
  refine .read (reads_llvmType _) fun ret hret => .read reads_declarations fun d _ => ?_
  exact keeps_callFunction rfl
    (fun _ => hret ▸ env'.package.declarations.isGiven_llvmType _) hargs

theorem keeps_genMethodCall {receiver : Slot} (method : Ident) {arguments : Arguments}
    (target? : Option FunctionId)
    (howner : ∀ id, ∀ t ∈ (p.signature id).owner?, D.IsType t)
    (hreceiver : D.Generates p env.arena generate receiver)
    (hargs : ∀ c ∈ arguments.args, D.Generates p env.arena generate c) :
    D.Keeps env owed pt (genMethodCall generate receiver method arguments target?) fun v pt' =>
      D.Gives pt' v := by
  unfold genMethodCall
  refine .read reads_read fun env' henv => .read (reads_resolved _ _) fun target _ => ?_
  subst henv hp
  refine (hreceiver.gives rfl hbound).bind fun this pt₁ h₁ hthis => ?_
  refine (keeps_operands rfl (h₁.bound hbound) hargs).bind fun args pt₂ h₂ hargs => ?_
  have hall : ∀ v ∈ this :: args, D.Gives pt₂ v := List.forall_mem_cons.mpr ⟨h₂.gives hthis, hargs⟩
  refine .read (reads_llvmType _) fun ret hret => ?_
  have hgiven : ret.IsGiven := hret ▸ env'.package.declarations.isGiven_llvmType _
  dsimp only
  split
  next protocol hprotocol =>
    obtain ⟨owner, hmem, hname⟩ := Option.bind_eq_some_iff.mp hprotocol
    have hprotocol := D.pervasive.of_protocolName? (howner target owner hmem) hname
    refine (keeps_protocolMethod (h₂.gives hthis).has hprotocol _).bind
      fun callee pt₃ h₃ hcallee => ?_
    exact (keeps_emitCall (fun _ => hgiven) hcallee (h₃.forall_gives hall)).mono
      fun v _ ⟨hv, htype⟩ => ⟨hv, fun _ => htype ▸ hgiven⟩
  next =>
    refine .read reads_declarations fun d _ => ?_
    simp only [pure_bind]
    exact keeps_callFunction rfl (fun _ => hgiven) hall

theorem keeps_genInvoke {callee : Slot} {args : List Slot}
    (hcallee : D.Generates p env.arena generate callee)
    (hargs : ∀ c ∈ args, D.Generates p env.arena generate c) :
    D.Keeps env owed pt (genInvoke generate callee args) fun v pt' => D.Gives pt' v := by
  unfold genInvoke
  refine .read (reads_typeOf callee) fun t _ => ?_
  split
  next =>
    refine (hcallee.gives hp hbound).bind fun callable pt₁ h₁ hcallable => ?_
    refine (keeps_loadWord hcallable.has 0).bind fun function pt₂ h₂ hfunction => ?_
    refine (keeps_loadWord (h₂.has hcallable.has) 1).bind fun bound pt₃ h₃ hcontext => ?_
    refine (keeps_operands hp (((h₁.trans h₂).trans h₃).bound hbound) hargs).bind
      fun values pt₄ h₄ hvalues => ?_
    refine .read (reads_llvmType _) fun type htype => ?_
    refine (keeps_emitCall (fun _ => htype ▸ env.package.declarations.isGiven_llvmType _)
      ((h₃.trans h₄).has hfunction) ?_).mono fun v _ ⟨hv, hv'⟩ => .of_type hv (hv'.trans htype)
    exact List.forall_mem_cons.mpr ⟨.pointer (h₄.has hcontext), hvalues⟩
  next => exact .throw _

theorem keeps_genConversion {inner : Slot} {op : Conversion} {t : Ty}
    (hfits : D.Fits p.declarations op (env.arena.typeAt inner) t)
    (hinner : D.Generates p env.arena generate inner) :
    D.Keeps env owed pt (genConversion generate inner op t) fun v pt' => D.Gives pt' v := by
  unfold genConversion
  refine .read (reads_node inner) fun e _ => ?_
  refine (keeps_foldBoxed? (fun u hop => ?_) _).bind fun folded pt₁ h₁ hfolded => ?_
  · subst hop
    cases hfits with
    | step _ hmentions _ => exact hmentions.1
  split
  next v => exact .pure (hfolded v rfl)
  next =>
    refine (hinner.keeps hp rfl (h₁.bound hbound)).bind fun value pt₂ _ ⟨hvalue, htype⟩ => ?_
    refine .read (reads_typeOf inner) fun u hu => ?_
    obtain rfl := Arena.typeAt_of_type? hu
    exact keeps_realize (congrArg Package.declarations hp) hfits hvalue htype

end Node

/-! ### Closures -/

/-- Values of type void are not captured. -/
theorem keeps_capturedValues (hbound : D.Bound pt) (closure : Closure) :
    D.Keeps env owed pt (capturedValues closure) fun captured pt' =>
      ∀ q ∈ captured, D.Has pt' q.2.operand ∧ (D.Typed → q.2.type.IsHeld) := by
  unfold capturedValues
  refine .bind (.mapM (R := fun (q : VariableId × Value) pt' => D.Gives pt' q.2)
    (fun hq h => h.gives hq) fun id _ pt' h => .map (keeps_readVariable (h.bound hbound) id))
    fun values pt₁ _ hvalues => .pure fun q hq => ?_
  obtain ⟨hmem, hvoid⟩ := List.mem_filter.mp hq
  have hgives := hvalues q hmem
  exact ⟨hgives.has, hgives.isHeld (by simpa [Value.isVoid] using hvoid)⟩

theorem keeps_genContext {captured : List Value}
    (h : ∀ v ∈ captured, D.Has pt v.operand ∧ (D.Typed → v.type.IsHeld)) :
    D.Keeps env owed pt (genContext captured) fun o pt' => D.Has pt' o := by
  have hcontext (htyped : D.Typed) : (LType.struct (captured.map (·.type))).IsHeld := by
    refine .context fun t ht => ?_
    obtain ⟨v, hv, rfl⟩ := List.mem_map.mp ht
    exact (h v hv).2 htyped
  unfold genContext
  split
  next => exact .pure has_null
  next =>
    refine (keeps_alloc hcontext).bind fun memory pt₁ h₁ hmemory => ?_
    refine .bind (.forM fun q hq pt₂ h₂ => ?_) fun _ pt₂ h₂ _ => .pure (h₂.has hmemory)
    obtain ⟨v, i⟩ := q
    obtain ⟨hv, hheld⟩ := h v (List.fst_mem_of_mem_zipIdx hq)
    refine (keeps_address hcontext (h₂.has hmemory) _).bind fun field pt₃ h₃ hfield => ?_
    exact (keeps_store (((h₁.trans h₂).trans h₃).has hv) hheld hfield).whatever

theorem makes_genClosureFunction {generate : Generate} {closure : Closure}
    {captures : List (VariableId × LType)} (hp : env.package = p)
    (hstyle : env.style = .closure captures) (hcaptures : D.Typed → ∀ q ∈ captures, q.2.IsHeld)
    (hbody : D.Generates p env.arena generate closure.body) (ps : List Ty) (r : Ty) :
    D.Makes env (genClosureFunction generate closure ps r) := by
  let types := (closure.params.zip ps).map fun q =>
    (q.1.id?, env.package.declarations.llvmType q.2)
  have hheld (htyped : D.Typed) : env.style.IsHeld := by
    rw [hstyle]
    exact ⟨fun _ heq => by cases heq; exact hcaptures htyped, by simp [ArgumentStyle.this?]⟩
  have hgiven : ∀ q ∈ types, q.2.IsGiven := by
    intro q hq
    obtain ⟨q, -, rfl⟩ := List.mem_map.mp hq
    exact env.package.declarations.isGiven_llvmType q.2
  refine ⟨types.map (·.2), fun pt hpt => ?_⟩
  unfold genClosureFunction
  refine .read (Reads.mapM (f := fun q => (q.1.id?, env.package.declarations.llvmType q.2))
    (fun _ => .of_runIn fun _ => rfl) _) fun types' htypes => ?_
  obtain rfl : types' = types := htypes
  refine (runs_declareArguments hheld (fun _ => hgiven) rfl).reaches_bind hpt
    fun declared pt₁ hpt₁ hcont₁ hdeclared => ?_
  refine (hbody.gives hp hpt₁.bound).reaches_bind hpt₁.sound fun v pt₂ hsound hext hv => ?_
  exact reaches_returning (hpt₁.extends hext hsound) (D.trans hcont₁ hext.continues) hpt.receives
    hv r hdeclared

theorem keeps_genClosure {generate : Generate} {closure : Closure} (hp : env.package = p)
    (hbound : D.Bound pt) (hbody : D.Generates p env.arena generate closure.body) (t : Ty) :
    D.Keeps env owed pt (genClosure generate closure t) fun v pt' => D.Gives pt' v := by
  unfold genClosure
  split
  next ps r _ =>
    refine (keeps_capturedValues hbound closure).bind fun captured pt₁ _ hcaptured => ?_
    refine .read reads_read fun env' henv => ?_
    subst henv
    have hcaptures (htyped : D.Typed) : ∀ q ∈ captured.map fun q => (q.1, q.2.type),
        q.2.IsHeld := by
      intro q hq
      obtain ⟨v, hv, rfl⟩ := List.mem_map.mp hq
      exact (hcaptured v hv).2 htyped
    have hfunction (name : String) : D.Makes
        { env' with name, style := .closure (captured.map fun q => (q.1, q.2.type)) }
        (genClosureFunction generate closure ps r) :=
      makes_genClosureFunction (by exact hp) rfl hcaptures (by exact hbody) ps r
    refine D.making (.closure _) hfunction fun name pt₂ h₂ hname => ?_
    refine (keeps_genContext fun v hv => ?_).bind fun memory pt₃ h₃ hmemory => ?_
    · obtain ⟨q, hq, rfl⟩ := List.mem_map.mp hv
      exact (hcaptured q hq).imp_left h₂.has
    · exact keeps_makeCallable (h₃.has hname) hmemory
  next => exact .throw _

/-! ### Nodes and expressions -/

/-- The node is one whose code keeps to the discipline. -/
structure Frame.Suits (F : Frame) (p : Package) (a : Arena) (slot : Slot) : Prop where
  isType : ∀ t, (a.get slot).type? = some t → F.IsType t
  fits : ∀ inner op, (a.get slot).kind = .conversion inner op →
    F.Fits p.declarations op (a.typeAt inner) (a.typeAt slot)

section Expr

variable {generate : Generate} {slot : Slot}
  (howner : ∀ id, ∀ t ∈ (p.signature id).owner?, D.IsType t)
include howner

theorem keeps_genNode (hp : env.package = p) (hbound : D.Bound pt)
    (hsuits : D.Suits p env.arena slot)
    (hgen : ∀ c ∈ (env.arena.get slot).kind.operands, D.Generates p env.arena generate c) :
    D.Keeps env owed pt (genNode generate slot) fun v pt' => D.Gives pt' v := by
  unfold genNode
  refine .read (reads_node slot) fun e he => .read (reads_typeOf slot) fun t ht => ?_
  subst he
  cases hk : (env.arena.get slot).kind with
  | int v => exact .pure (gives_word (has_int _) 64)
  | real bits => exact .pure ⟨has_real bits, fun _ => (LType.IsHeld.free rfl).isGiven⟩
  | bool v => exact .pure (gives_word (has_bool v) 1)
  | symbol v => exact .pure (gives_word (has_int _) 32)
  | noValue => exact keeps_genNoValue t
  | string v => exact keeps_genString v
  | localRef name id? =>
    exact .read (reads_resolved id? name) fun id _ => keeps_readVariable hbound id
  | call function arguments target? =>
    rw [hk] at hgen
    exact keeps_genCall hp hbound function target? hgen
  | methodCall receiver method arguments target? =>
    rw [hk] at hgen
    obtain ⟨hreceiver, hargs⟩ := List.forall_mem_cons.mp hgen
    exact keeps_genMethodCall hp hbound method target? howner hreceiver hargs
  | invoke callee args =>
    rw [hk] at hgen
    obtain ⟨hcallee, hargs⟩ := List.forall_mem_cons.mp hgen
    exact keeps_genInvoke hp hbound hcallee hargs
  | closure closure =>
    rw [hk] at hgen
    exact keeps_genClosure hp hbound (hgen closure.body List.mem_cons_self) t
  | typeExpr form => exact keeps_genTypeExpr (hsuits.isType t ht)
  | unwrap inner =>
    rw [hk] at hgen
    exact (hgen inner List.mem_cons_self).gives hp hbound
  | conversion inner op =>
    rw [hk] at hgen
    have hfits := hsuits.fits inner op hk
    rw [Arena.typeAt_of_type? ht] at hfits
    exact keeps_genConversion hp hbound hfits (hgen inner List.mem_cons_self)

theorem Discipline.generates_genExprWithin {a : Arena} (htyped : ¬ D.Typed) (n : Nat)
    (hsuits : ∀ x, a.Reaches slot x → D.Suits p a x) : D.Generates p a (genExprWithin n) slot := by
  induction n generalizing slot with
  | zero => exact ⟨fun _ _ _ => .throw _⟩
  | succ n ih =>
    refine ⟨?_⟩
    rintro env owed pt hp rfl hbound
    refine (keeps_genNode howner hp hbound (hsuits slot (.refl _ _)) fun c hc =>
      ih fun x hx => hsuits x (.head hc hx)).mono fun v _ hv => ⟨hv.has, fun h => absurd h htyped⟩

/-- Where types are not minded, the generator of expressions keeps to the discipline. -/
theorem Discipline.generates_genExpr {a : Arena} (htyped : ¬ D.Typed)
    (hsuits : ∀ x, a.Reaches slot x → D.Suits p a x) : D.Generates p a genExpr slot := by
  refine ⟨?_⟩
  rintro env owed pt hp rfl hbound
  unfold genExpr
  refine .read reads_read fun env' henv => ?_
  subst henv
  exact (Discipline.generates_genExprWithin howner htyped _ hsuits).keeps hp rfl hbound

end Expr

end Emit

end Boxlang
