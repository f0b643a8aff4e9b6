import Boxlang.Proofs.Emit.Locals

/-!
# Code for elaborated bodies

Elaborated statements can be generated exactly if no closure in them captures
nothing, as far as they are generated at all: what follows a return is not.  The
function of a body is well-typed.
-/

namespace Boxlang

open Llvm

namespace Stmt

def isReturn : Stmt → Bool
  | .ret _ => true
  | .letStmt _ | .assign _ | .expr _ => false

def generated : List Stmt → List Stmt
  | [] => []
  | stmt :: stmts => stmt :: if stmt.isReturn then [] else generated stmts

end Stmt

namespace Emit

/-- The state after a statement: inside the function, or at its end if it has returned. -/
structure After (env : FunctionEnv) (ret : LType) (m : ModuleState) (L : Locals) (w : World) : Prop
    extends CodeOk env ret m w where
  inside : w.function.returned = false → Inside env ret m L w
  body_eq : w.function.returned = true → w.function.body = []

variable {env : FunctionEnv} {ret : Ty} {m : ModuleState} {L L' : Locals} {w w' : World}

theorem Inside.after {type : LType} (h : Inside env type m L w) : After env type m L w :=
  { h with
    inside := fun _ => h
    body_eq := fun hreturned => by
      rw [h.returned_eq] at hreturned
      cases hreturned }

def World.finished (w : World) (exit : Terminator) : World :=
  ⟨{ w.function with
      blocks := w.function.blocks ++ [{ label := w.function.label, body := w.function.body, exit }]
      body := [] }, w.refs⟩

theorem CodeOk.finishBlock {type : LType} {exit : Terminator} (h : CodeOk env type m w)
    (hexit : exit.Returns type) : CodeOk env type m (w.finished exit) := by
  have hcode : (w.finished exit).function.code = w.function.code := by
    simp [FunctionState.code, World.finished]
  refine ⟨?_, ?_, ?_, fun e he => ?_, h.synthesized⟩
  · rw [hcode]
    exact h.alloca_lt
  · rw [hcode]
    exact h.store_lt
  · rw [hcode]
    exact h.store_type
  · have hexits : (w.finished exit).function.exits = w.function.exits ++ [exit] := List.map_append
    rw [hexits] at he
    rcases List.mem_append.mp he with he | he
    · exact h.exits e he
    · obtain rfl := List.mem_singleton.mp he
      exact hexit

theorem CodeOk.wellTyped {f : FunctionDef} (h : CodeOk env f.ret m w)
    (hblocks : f.blocks = w.function.blocks) (hbody : w.function.body = []) : f.WellTyped := by
  have hcode : f.code = w.function.code := by
    simp [FunctionDef.code, FunctionState.code, hblocks, hbody]
  refine ⟨fun b hb => h.exits b.exit (List.mem_map_of_mem (hblocks ▸ hb)), ?_⟩
  rw [hcode]
  exact h.store_type

/-! ### Statements -/

theorem meets_resolved {α : Type} (a : α) (name : Ident) :
    Meets env w (resolved (some a) name) True fun b w' => b = a ∧ w' = w :=
  .pure ⟨rfl, rfl⟩

section Statements

variable {generate : Generate} (h : Inside env (env.package.declarations.llvmType ret) m L w)
include h

theorem Inside.meets_emitReturn {v : Value}
    (hv : v.type = env.package.declarations.llvmType ret) :
    Meets env w (emitReturn v) True fun _ w' =>
      After env (env.package.declarations.llvmType ret) m L w' ∧ w'.function.returned = true := by
  have hcode := h.toCodeOk.finishBlock (returns_exit hv)
  refine .of_runIn (a := ()) rfl ⟨⟨⟨hcode.alloca_lt, hcode.store_lt, hcode.store_type, hcode.exits,
    hcode.synthesized⟩, fun hreturned => ?_, fun _ => rfl⟩, rfl⟩
  cases hreturned

theorem meets_genLet_deferred {stmt : LetStmt} {id : VariableId} {t : Ty}
    (hinit : stmt.init? = none) (hid : stmt.id? = some id) (hres : stmt.resolved? = some t)
    (hnew : L id = none) :
    Meets env w (genLet generate stmt) True fun _ w' =>
      Inside env (env.package.declarations.llvmType ret) m (L.set id ⟨t, stmt.isMutable, false⟩) w' := by
  unfold genLet
  rw [hid, hinit]
  refine (meets_resolved id stmt.name).bind_true fun id' w₁ hid' => ?_
  obtain ⟨rfl, rfl⟩ := hid'
  dsimp only
  unfold declareDeferred
  split
  next hm =>
    rw [hres]
    refine ((emits_llvmType t) (Nat.le_refl _)).bind_true fun type w₂ ⟨hext, htype⟩ => ?_
    have h₂ := h.extends hext
    split
    next hvoid =>
      rw [pure_bind]
      refine h₂.meets_bind ⟨hm.symm, ?_, fun _ hnot => ?_⟩ (.inr hm)
      · exact (LType.eq_void hvoid).symm.trans htype
      · cases hnot
    next =>
      refine (h₂.meets_alloca type).bind_true fun room w₃ ⟨h₃, r, hr, hroom⟩ => ?_
      subst hr
      exact h₃.meets_bind ⟨hm.symm, htype, fun _ _ => ⟨r, rfl, hroom⟩⟩ (.inr hm)
  next hm =>
    rw [Bool.not_eq_true] at hm
    rw [hm]
    exact .pure (h.declare hnew t)

variable (hgen : ∀ c, Generates env.package env.arena generate c)
include hgen

theorem meets_genLet {stmt : LetStmt} {id : VariableId} {init : Slot} {t : Ty}
    (hinit : stmt.init? = some init) (hid : stmt.id? = some id)
    (hexpr : Elaborated env.package env.arena L.context init)
    (htype : env.package.declarations.llvmType (env.arena.typeAt init) =
      env.package.declarations.llvmType t) :
    Meets env w (genLet generate stmt) (¬ env.arena.CapturesNothing init) fun _ w' =>
      Inside env (env.package.declarations.llvmType ret) m (L.set id ⟨t, stmt.isMutable, true⟩) w' := by
  unfold genLet
  rw [hid, hinit]
  refine (meets_resolved id stmt.name).bind_true fun id' w₁ hid' => ?_
  obtain ⟨rfl, rfl⟩ := hid'
  refine (h.meets_generate hexpr (hgen _)).followed_by fun value w₂ ⟨h₂, hvalue⟩ => ?_
  split
  next hroom =>
    rw [Bool.and_eq_true, Bool.not_eq_true'] at hroom
    refine (h₂.meets_alloca value.type).bind_true fun room w₃ ⟨h₃, r, hr, hroom₃⟩ => ?_
    subst hr
    refine (h₃.meets_store hroom₃).bind_true fun _ w₄ ⟨h₄, hroom₄⟩ => ?_
    refine h₄.meets_bind ⟨hroom.1.symm, hvalue.trans htype, fun _ _ => ⟨r, rfl, hroom₄⟩⟩ (.inl rfl)
  next hroom =>
    refine h₂.meets_bind ⟨rfl, hvalue.trans htype, fun hm hvoid => ?_⟩ (.inl rfl)
    simp_all

theorem meets_genAssign {stmt : AssignStmt} {id : VariableId} {v : Variable}
    (hid : stmt.id? = some id) (hv : L id = some v) (hfirst : v.isMutable = true ∨ v.hasValue = false)
    (hexpr : Elaborated env.package env.arena L.context stmt.value)
    (htype : env.package.declarations.llvmType (env.arena.typeAt stmt.value) =
      env.package.declarations.llvmType v.type) :
    Meets env w (genAssign generate stmt) (¬ env.arena.CapturesNothing stmt.value) fun _ w' =>
      Inside env (env.package.declarations.llvmType ret) m (L.set id { v with hasValue := true }) w' := by
  unfold genAssign
  rw [hid]
  refine (h.meets_generate hexpr (hgen _)).followed_by fun value w₂ hgenerated => ?_
  obtain ⟨h₂, hvalue⟩ := hgenerated
  refine (meets_resolved id stmt.target).bind_true fun id' w₃ hid' => ?_
  obtain ⟨rfl, rfl⟩ := hid'
  refine (Meets.of_runIn (Q := fun s w' => s = w₃.function ∧ w' = w₃) runIn_get
    ⟨rfl, rfl⟩).bind_true fun s w₄ hs => ?_
  obtain ⟨rfl, rfl⟩ := hs
  cases hm : v.isMutable with
  | false =>
      have hvalue' : v.hasValue = false := by simpa [hm] using hfirst
      rw [h₂.unbound id' v hv hvalue' hm]
      exact h₂.meets_bind ⟨rfl, hvalue.trans htype, fun hmutable => by cases hmutable⟩ (.inl rfl)
  | true =>
      obtain ⟨b, hb, hfits⟩ := h₂.bound id' v hv (.inr hm)
      have hmutable : b.isMutable = true := hfits.isMutable_eq.trans hm
      have htype' : value.type = b.value.type := (hvalue.trans htype).trans hfits.type_eq.symm
      rw [hb]
      dsimp only
      rw [if_neg (by simp [hmutable])]
      split
      next => exact .pure (hm ▸ h₂.assign hv hm)
      next hvoid =>
        have hvoid' : b.value.isVoid = false := by simpa [Value.isVoid, ← htype'] using hvoid
        obtain ⟨r, hr, hroom⟩ := hfits.room hmutable hvoid'
        rw [hr]
        exact (h₂.meets_store (htype' ▸ hroom)).mono fun _ w' hstored => hm ▸ hstored.1.assign hv hm

theorem meets_genStmt {stmt : Stmt} (hok : StmtOk env.package ret env.arena L stmt L') :
    Meets env w (genStmt generate stmt) (∀ c ∈ stmt.slots, ¬ env.arena.CapturesNothing c) fun _ w' =>
      After env (env.package.declarations.llvmType ret) m L' w' ∧
        w'.function.returned = stmt.isReturn := by
  cases hok with
  | @letInit stmt init id t hinit hid _ _ _ hexpr htype =>
      have hslots : (Stmt.letStmt stmt).slots = [init] := by simp [Stmt.slots, hinit]
      rw [hslots, List.forall_mem_singleton]
      exact (meets_genLet h hgen hinit hid hexpr htype).mono fun _ w' h' => ⟨h'.after, h'.returned_eq⟩
  | @letDeferred stmt id t hinit hid hres hnew _ =>
      have hslots : (Stmt.letStmt stmt).slots = [] := by simp [Stmt.slots, hinit]
      rw [hslots]
      refine Meets.congr ?_ (iff_of_true trivial (List.forall_mem_nil _))
      exact (meets_genLet_deferred h hinit hid hres hnew).mono fun _ w' h' =>
        ⟨h'.after, h'.returned_eq⟩
  | @assign stmt id v hid hv hfirst hexpr hlike =>
      show Meets env w (genAssign generate stmt) (∀ c ∈ [stmt.value], _) _
      rw [List.forall_mem_singleton]
      exact (meets_genAssign h hgen hid hv hfirst hexpr hlike.llvmType_eq).mono fun _ w' h' =>
        ⟨h'.after, h'.returned_eq⟩
  | @expr slot hexpr =>
      show Meets env w ((fun _ => ()) <$> generate slot) (∀ c ∈ [slot], _) _
      rw [List.forall_mem_singleton, ← bind_pure_comp]
      exact (h.meets_generate hexpr (hgen _)).followed_by fun v w₁ hvalue =>
        .pure ⟨hvalue.1.after, hvalue.1.returned_eq⟩
  | @retValue stmt slot hvalue hexpr hlike =>
      have hslots : (Stmt.ret stmt).slots = [slot] := by simp [Stmt.slots, hvalue]
      rw [hslots, List.forall_mem_singleton]
      unfold genStmt
      dsimp only
      rw [hvalue]
      exact (h.meets_generate hexpr (hgen _)).followed_by fun v w₁ hvalue =>
        hvalue.1.meets_emitReturn (hvalue.2.trans hlike.llvmType_eq)
  | @retNothing stmt hvalue hret =>
      have hslots : (Stmt.ret stmt).slots = [] := by simp [Stmt.slots, hvalue]
      rw [hslots]
      unfold genStmt
      dsimp only
      rw [hvalue]
      refine Meets.congr ?_ (iff_of_true trivial (List.forall_mem_nil _))
      exact h.meets_emitReturn (by rw [hret]; rfl)

end Statements

/-! ### Sequences of statements -/

theorem runIn_genStmts_of_returned {generate : Generate} (h : w.function.returned = true)
    (stmts : List Stmt) :
    (genStmts generate stmts).runIn env w = (.ok (), w) := by
  cases stmts with
  | nil => rfl
  | cons stmt stmts =>
      unfold genStmts
      rw [runIn_bind, runIn_get]
      dsimp only
      rw [if_pos h]
      rfl

/--
Statements can be generated exactly if no closure captures nothing in those up to the
first return.  If there is none, the statements that follow are elaborated in the
state they leave.
-/
theorem meets_genStmts {generate : Generate}
    (hgen : ∀ c, Generates env.package env.arena generate c) {stmts rest : List Stmt}
    (hok : StmtsOk env.package ret env.arena L (stmts ++ rest))
    (h : Inside env (env.package.declarations.llvmType ret) m L w) :
    Meets env w (genStmts generate stmts)
      (∀ stmt ∈ Stmt.generated stmts, ∀ c ∈ stmt.slots, ¬ env.arena.CapturesNothing c) fun _ w' =>
        ∃ L', After env (env.package.declarations.llvmType ret) m L' w' ∧
          (w'.function.returned = false → StmtsOk env.package ret env.arena L' rest) := by
  induction stmts generalizing L w with
  | nil => exact Meets.congr (.pure ⟨L, h.after, fun _ => hok⟩) (by simp [Stmt.generated])
  | cons stmt stmts ih =>
      cases hok with
      | @cons _ L₁ _ _ hstmt hrest =>
          unfold genStmts
          refine (Meets.of_runIn (Q := fun s w' => s = w.function ∧ w' = w) runIn_get
            ⟨rfl, rfl⟩).bind_true fun s w₁ hs => ?_
          obtain ⟨rfl, rfl⟩ := hs
          rw [if_neg (by simp [h.returned_eq]), Stmt.generated, List.forall_mem_cons]
          refine (meets_genStmt h hgen hstmt).bind fun _ w₂ ⟨hafter, hreturned⟩ => ?_
          cases hr : stmt.isReturn with
          | false => exact ih hrest (hafter.inside (hreturned.trans hr))
          | true =>
              have hreturned' := hreturned.trans hr
              refine Meets.congr (.of_runIn (runIn_genStmts_of_returned hreturned' stmts)
                ⟨L₁, hafter, fun hnot => ?_⟩) (iff_of_true trivial (List.forall_mem_nil _))
              rw [hreturned'] at hnot
              cases hnot

/-! ### Whole functions -/

def numberedParams (d : Declarations) (f : Signature) : List (Option VariableId × LType) :=
  f.params.zipIdx.map fun q => (some q.2, d.llvmType q.1.type)

theorem namedParams_numberedParams (d : Declarations) (f : Signature) :
    namedParams (numberedParams d f) = f.params.zipIdx.map fun q => (q.2, d.llvmType q.1.type) := by
  simp [namedParams, numberedParams, List.filterMap_map]

theorem params_declarationOf (d : Declarations) (f : Signature) :
    (declarationOf d f).params = (styleOf f).firstTypes d ++
      ((numberedParams d f).map (·.2)).filter (!·.isVoid) := by
  have htypes : (numberedParams d f).map (·.2) = f.params.map fun p => d.llvmType p.type := by
    simp only [numberedParams, List.map_map, Function.comp_def]
    exact (List.map_map (f := Prod.fst) (g := fun p : Param => d.llvmType p.type)).symm.trans
      (by rw [List.zipIdx_map_fst])
  rw [htypes]
  unfold declarationOf styleOf
  cases f.owner? <;> rfl

theorem emits_numberedParams {first : Nat} (f : Signature) :
    Emits env first w (f.params.zipIdx.mapM fun (p, i) => return (some i, ← llvmType p.type)) True
      fun types _ => types = numberedParams env.package.declarations f := by
  refine emits_mapM (f := fun q : Param × Nat =>
    (some q.2, env.package.declarations.llvmType q.1.type)) (fun q w => ?_) _
  refine .map ?_
  exact (emits_llvmType q.1.type).mono fun _ _ ht => congrArg (Prod.mk (some q.2)) ht

section Functions

variable {f : Signature} {stmts : List Stmt} {count : Nat}

/-- Where code was only added since the beginning, and parameters bound, the function is under way. -/
theorem inside_of_grows {type : LType} (hgrows : Grows env.package env.arena 0 ⟨.start count, m⟩ w)
    (hbinds : Binds (f.params.zipIdx.map fun q => (q.2, env.package.declarations.llvmType q.1.type))
      (.ofSize count) w.function.bindings) : Inside env type m (.ofSignature f) w where
  alloca_lt r t hmem := absurd hmem (hgrows.alloca_not_mem r t)
  store_lt v r hmem := by
    rcases hgrows.code.mem hmem with hstart | hnew
    · simp [FunctionState.code, FunctionState.start] at hstart
    · exact hnew.2
  store_type v r t _ hmem := absurd hmem (hgrows.alloca_not_mem r t)
  exits exit hmem := by
    rcases hgrows.exits.mem hmem with hstart | hnew
    · simp [FunctionState.exits, FunctionState.start] at hstart
    · exact Terminator.returns_of_not_isReturn hnew type
  synthesized := hgrows.synthesized
  returned_eq := hgrows.returned_eq
  bound id v hv _ := by
    obtain ⟨param, hparam, rfl⟩ := Option.map_eq_some_iff.mp hv
    obtain ⟨b, hb, hm, ht⟩ := hbinds.bound (id, env.package.declarations.llvmType param.type)
      (List.mem_map.mpr ⟨(param, id), List.mem_zipIdx_iff_getElem?.mpr hparam, rfl⟩)
    refine ⟨b, hb, hm, ht, fun hmutable => ?_⟩
    rw [hm] at hmutable
    cases hmutable
  unbound id v hv hvalue := by
    obtain ⟨param, hparam, rfl⟩ := Option.map_eq_some_iff.mp hv
    cases hvalue
  undeclared id hid := by
    refine (hbinds.kept id fun hmem => ?_).trans (Slots.get?_ofSize count id)
    rw [List.map_map] at hmem
    obtain ⟨⟨param, i⟩, hq, rfl⟩ := List.mem_map.mp hmem
    have hparam := List.mem_zipIdx_iff_getElem?.mp hq
    simp [Locals.ofSignature, hparam] at hid

theorem meets_declareParams (hstyle : env.style = styleOf f)
    (hext : Extends env.package env.arena 0 ⟨.start count, m⟩ w) :
    Meets env w (declareArguments (numberedParams env.package.declarations f)) True
      fun declared w' =>
        declared.map (·.type) = (declarationOf env.package.declarations f).params ∧
          Inside env (env.package.declarations.llvmType f.ret) m (.ofSignature f) w' := by
  have hcaptured : (styleOf f).captured = [] := by
    unfold styleOf
    split <;> rfl
  have hnamed := namedParams_numberedParams env.package.declarations f
  have hnodup : ((env.style.captured ++
      namedParams (numberedParams env.package.declarations f)).map (·.1)).Nodup := by
    have hids : ((f.params.zipIdx.map fun q =>
        (q.2, env.package.declarations.llvmType q.1.type)).map (·.1)) =
          List.range' 0 f.params.length := by
      rw [List.map_map, ← List.zipIdx_map_snd 0 f.params]
      rfl
    rw [hstyle, hcaptured, hnamed, List.nil_append, hids]
    exact List.nodup_range'
  refine (declares_arguments _ hnodup (Nat.zero_le _)).mono fun declared w' hdeclared => ?_
  obtain ⟨hgrows, hbinds, ht⟩ := hdeclared
  refine ⟨by rw [ht, hstyle, params_declarationOf], ?_⟩
  rw [hstyle, hcaptured, List.nil_append, hnamed, hext.bindings_eq] at hbinds
  exact inside_of_grows (hext.toGrows.trans hgrows) hbinds

/-- The end of a function: where it has not returned, control falls off its end. -/
theorem meets_finish (h : After env (env.package.declarations.llvmType f.ret) m L w)
    (declared : List Value) :
    Meets env w (do
      let ret ← llvmType f.ret
      unless (← get).returned do
        finishBlock (if ret.isVoid then .retVoid else .unreachable)
      finished ret declared) True fun definition w' =>
        definition.ret = env.package.declarations.llvmType f.ret ∧ definition.params = declared ∧
          definition.WellTyped ∧ w'.refs = w.refs := by
  have hrun : (llvmType f.ret).runIn env w = (.ok (env.package.declarations.llvmType f.ret), w) := rfl
  let definition (w : World) : FunctionDef :=
    { name := env.name, ret := env.package.declarations.llvmType f.ret, params := declared
      blocks := w.function.blocks }
  cases hreturned : w.function.returned with
  | true =>
      refine .of_runIn (a := definition w) (v := w) ?_
        ⟨rfl, rfl, h.wellTyped rfl (h.body_eq hreturned), rfl⟩
      rw [runIn_bind, hrun]
      dsimp only
      rw [runIn_bind, runIn_get]
      dsimp only
      rw [if_pos hreturned]
      rfl
  | false =>
      let exit : Terminator :=
        if (env.package.declarations.llvmType f.ret).isVoid then .retVoid else .unreachable
      have hexit : exit.Returns (env.package.declarations.llvmType f.ret) := by
        show (if _ then Terminator.retVoid else .unreachable).Returns _
        split
        next hvoid => exact LType.eq_void hvoid
        next => trivial
      refine .of_runIn (a := definition (w.finished exit)) (v := w.finished exit) ?_
        ⟨rfl, rfl, (h.finishBlock hexit).wellTyped rfl rfl, rfl⟩
      rw [runIn_bind, hrun]
      dsimp only
      rw [runIn_bind, runIn_get]
      dsimp only
      rw [if_neg (by simp [hreturned])]
      rfl

theorem meets_genBody {generate : Generate}
    (hgen : ∀ c, Generates env.package env.arena generate c) (hstyle : env.style = styleOf f)
    (hok : StmtsOk env.package f.ret env.arena (.ofSignature f) stmts) :
    Meets env ⟨.start count, m⟩ (genBody generate f stmts)
      (∀ stmt ∈ Stmt.generated stmts, ∀ c ∈ stmt.slots, ¬ env.arena.CapturesNothing c)
      fun definition w' => definition.ret = env.package.declarations.llvmType f.ret ∧
        definition.params.map (·.type) = (declarationOf env.package.declarations f).params ∧
        definition.WellTyped ∧
        Appends (Synthesized.IsMade env.package env.arena) m.synthesized w'.refs.synthesized := by
  unfold genBody
  refine (emits_numberedParams f (Nat.zero_le _)).bind_true fun types w₁ ⟨h₁, htypes⟩ => ?_
  subst htypes
  refine (meets_declareParams hstyle h₁).bind_true fun declared w₂ ⟨hdeclared, h₂⟩ => ?_
  rw [← List.append_nil stmts] at hok
  refine (meets_genStmts hgen hok h₂).followed_by fun _ w₃ ⟨L', hafter, _⟩ => ?_
  exact (meets_finish hafter declared).mono fun definition w' ⟨hret, hparams, htyped, hrefs⟩ =>
    ⟨hret, hparams ▸ hdeclared, htyped, hrefs ▸ hafter.synthesized⟩

end Functions

end Emit

end Boxlang
