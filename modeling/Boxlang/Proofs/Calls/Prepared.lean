import Boxlang.Proofs.Arena.Chain
import Boxlang.Proofs.Calls.Run
import Boxlang.Proofs.Names.Node

/-!
# Calls that may not be made

Before a call checks its arguments it is prepared (`prepareCall?`): the receiver is typed
and held, the callee is found, and it is checked whether it may be called and with how many
arguments; generic arguments are checked or inferred.  Inference types arguments, but it does
not convert them, so a call that fails before its arguments are checked leaves the conversion
depth of each of them as it was.
-/

namespace Boxlang

def ExprKind.passed : ExprKind → List Slot
  | .call _ arguments _ | .methodCall _ _ arguments _ => arguments.args
  | .invoke _ args => args
  | _ => []

namespace ExprKind

variable {kind kind' : ExprKind} {arguments : Arguments}

theorem passed_subset_operands (kind : ExprKind) : kind.passed ⊆ kind.operands := by
  cases kind <;> simp [passed, operands]

theorem passed_eq_of_bare_eq (h : kind.bare = kind'.bare) : kind.passed = kind'.passed := by
  have hbare (k : ExprKind) : k.bare.passed = k.passed := by cases k <;> rfl
  rw [← hbare, h, hbare]

theorem passed_of_arguments? (h : kind.arguments? = some arguments) : kind.passed = arguments.args := by
  cases kind with
  | call | methodCall => cases h; rfl
  | _ => cases h

end ExprKind

namespace Analysis

/-! ### The parts of a call -/

def prepareFunctionCall (visit : Visit) (slot : Slot) (receiver? : Option Ty) (target : Signature) :
    Analysis (Analysis Ty) := do
  let (arguments, generics) ← prepareCall visit slot receiver? target
  return do
    let c := { (← read).calleeContext receiver? target with args := generics }
    checkArguments visit c.instantiate target arguments

def prepareCall? (visit : Visit) (slot : Slot) (span : Span) : ExprKind → Option (Analysis (Analysis Ty))
  | .call function _ _ => some do
    let package := (← read).package
    match package.function? function.name with
    | none => throw (.unresolved .function function.name function.span)
    | some id =>
      modifyKind slot (·.withTarget id)
      prepareFunctionCall visit slot none (package.signature id)
  | .methodCall receiver method _ _ => some do
    let actual ← visit receiver none
    let held ← comply actual { type := actual.erased, policy := .preferSimple } receiver
    let env ← read
    let callee := env.context.upperBound held.erased
    match env.package.method? callee method.name with
    | none => throw (.unresolved .method (callee.text ++ "." ++ method.name) method.span)
    | some id =>
      modifyKind slot (·.withTarget id)
      prepareFunctionCall visit slot (some callee) (env.package.signature id)
  | .invoke callee args => some do
    let calleeType ← visit callee none
    if calleeType.isError then
      return return .error
    else
      match calleeType.unboxed with
      | .callable params ret =>
        if params.length ≠ args.length then
          throw (.argumentCount calleeType.text params.length args.length span)
        return do
          (params.zip args).forM fun (param, arg) => discard (expectType visit param arg)
          return ret
      | _ => throw (.typeMismatch "a callable" calleeType.text (← spanOf callee))
  | _ => none

section Parts

variable {visit : Visit} {slot : Slot} {e : Expr} {e? : Option Expectation}

theorem analyseFunctionCall_eq_prepare (receiver? : Option Ty) (target : Signature) :
    analyseFunctionCall visit slot receiver? target =
      (do let rest ← prepareFunctionCall visit slot receiver? target; rest) := by
  rw [analyseFunctionCall_eq, prepareFunctionCall, bind_assoc]
  rfl

theorem nodeType_eq_of_prepareCall? {step : Analysis (Analysis Ty)}
    (h : prepareCall? visit slot e.span e.kind = some step) :
    nodeType visit slot e e? = (do let rest ← step; rest) := by
  unfold nodeType
  cases hk : e.kind with
  | call function arguments target? =>
    rw [hk] at h
    obtain rfl := Option.some.inj h
    simp only [analyseCall, bind_assoc]
    refine bind_congr fun env => ?_
    cases env.package.function? function.name with
    | none => rfl
    | some id => simp only [bind_assoc, analyseFunctionCall_eq_prepare]
  | methodCall receiver method arguments target? =>
    rw [hk] at h
    obtain rfl := Option.some.inj h
    simp only [analyseMethodCall, bind_assoc]
    refine bind_congr fun actual => bind_congr fun held => bind_congr fun env => ?_
    cases env.package.method? (env.context.upperBound held.erased) method.name with
    | none => rfl
    | some id => simp only [bind_assoc, analyseFunctionCall_eq_prepare]
  | invoke callee args =>
    rw [hk] at h
    obtain rfl := Option.some.inj h
    simp only [analyseInvoke, bind_assoc]
    refine bind_congr fun t => ?_
    cases t.isError with
    | true => rfl
    | false =>
      cases t.unboxed with
      | callable params ret =>
        simp only [Bool.false_eq_true, if_false]
        by_cases hlen : params.length = args.length
        · simp only [if_neg (not_not.mpr hlen), pure_bind]
        · simp only [if_pos hlen, bind_assoc, pure_bind]
      | _ => rfl
  | _ => rw [hk] at h; cases h

end Parts

/-! ### What preparing a call keeps -/

open AnalysisState

variable {env : Environment} {a₀ a : Arena} {roots args : List Slot} {visit : Visit} {slot x arg : Slot}
  {k n : Nat}

/-- A state whose arena comes from `a` by edits that leave the nodes on the chains of `args` what they are. -/
abbrev KeepsArguments (a₀ : Arena) (args : List Slot) (a : Arena) (s : AnalysisState) : Prop :=
  a₀.KeepsChains args a s.body.arena

theorem ensures_keeps_of_walks {α : Type} {step : Analysis α} {W : Slot → Prop} (hwalks : Walks a₀ W env step)
    (hW : ∀ x, W x → x < a₀.size) (hdisj : ∀ x, W x → ∀ arg ∈ args, ¬ a₀.Chain arg x) :
    Ensures env (KeepsArguments a₀ args a) (KeepsArguments a₀ args a) step fun _ => True :=
  .of_state fun s hs => hs.edits (hwalks s hs.holds).progress.arena hW hdisj

theorem keepsArguments_modifyKind {f : ExprKind → ExprKind} {s : AnalysisState}
    (h : KeepsArguments a₀ args a s)
    (hf : (f (s.body.arena.get slot).kind).bare = (s.body.arena.get slot).kind.bare) :
    KeepsArguments a₀ args a (s.withArena (s.body.arena.modifyKind slot f)) :=
  h.annotate (.withKind hf)

/-- An expression that contains nothing of the chains may be typed and converted. -/
theorem visits_keeps_of_walks (hwalks : VisitWalks a₀ (a₀.Reaches x) env visit) (hin : a₀.InRange)
    (hx : x < a₀.size) (hdisj : ∀ y, a₀.Reaches x y → ∀ arg ∈ args, ¬ a₀.Chain arg y) :
    Visits env (KeepsArguments a₀ args a) (KeepsArguments a₀ args a) (fun _ => True) (fun _ _ => True) visit x := by
  have hlt := (Arena.isRegion_reaches hin hx).lt
  have hvisit (e? : Option Expectation) :=
    ensures_keeps_of_walks (a := a) (hwalks x (.refl a₀ x) e?) hlt hdisj
  refine ⟨fun hs _ hrun => ?_, fun hs _ hrun => (hvisit _).error hs hrun⟩
  obtain ⟨hs', -⟩ := (hvisit _).ok hs hrun
  exact ⟨hs', trivial, fun op t _ _ _ => hs'.edits (.convert .refl (.refl a₀ x)) hlt hdisj⟩

theorem visits_keeps_of_ensures
    (h : ∀ e?, Ensures env (KeepsArguments a₀ args a) (KeepsArguments a₀ args a) (visit x e?) fun _ => True) :
    Visits env (KeepsArguments a₀ args a) (KeepsArguments a₀ args a) (fun _ => True) (fun _ _ => False) visit x where
  ok hs _ hrun := ⟨((h _).ok hs hrun).1, trivial, fun _ _ hconvert => hconvert.elim⟩
  error hs _ hrun := (h _).error hs hrun

theorem stable_keeps {G : Slot → Conversion → Prop} {operands : List Slot} (hx : x < a₀.size)
    (hoperands : (a₀.get x).kind.passed ⊆ operands)
    (hvisits : ∀ c ∈ operands, Visits env (KeepsArguments a₀ args a) (KeepsArguments a₀ args a)
      (fun _ => True) G visit c) :
    Stable env (KeepsArguments a₀ args a) (KeepsArguments a₀ args a) (fun _ => True) (fun _ => True) G visit x
      operands where
  fails hs := hs
  reports _ hs := hs
  visits := hvisits
  arguments {s arguments} hs harguments := by
    refine ⟨?_, fun _ _ _ _ => trivial⟩
    rcases hs.holds.holds x hx with hbare | ⟨-, inner, op, hconv⟩
    · rw [← ExprKind.passed_of_arguments? harguments, ExprKind.passed_eq_of_bare_eq (congrArg Expr.kind hbare)]
      exact hoperands
    · rw [hconv] at harguments
      cases harguments
  withTarget id hs := keepsArguments_modifyKind hs (by simp)
  withGenericArguments types _ hs := keepsArguments_modifyKind hs (by simp)

theorem ensures_keeps_analyseLocal (slot : Slot) (name : Ident) :
    Ensures env (KeepsArguments a₀ args a) (KeepsArguments a₀ args a) (analyseLocal slot name) fun _ => True := by
  unfold analyseLocal
  refine Ensures.bind (Q := fun _ => True) (.modifyGet fun s hs => ⟨hs, trivial⟩) fun b? _ => ?_
  split
  next => exact .throw (fun _ hs => hs) _
  next b =>
    refine Ensures.bind (Q := fun _ => True) (.modify fun s hs => ?_) fun _ _ => ?_
    · exact keepsArguments_modifyKind hs (ExprKind.bare_withVariable _ _)
    refine Ensures.bind (Q := fun _ => True) (.of_keeps fun s _ => ⟨s, rfl, trivial⟩) fun s _ => ?_
    dsimp only
    split
    · exact .pure trivial
    · exact (Ensures.throw (fun _ hs => hs) _).bind fun _ (_ : True) => .pure trivial

/-- A closure is entered, left and annotated, and its body is no part of the chains. -/
theorem ensures_keeps_analyseClosure {literal : Closure} (hx : x < a₀.size)
    (hbare : (a₀.get x).kind.bare = (ExprKind.closure literal).bare)
    (hbody : Visits env (KeepsArguments a₀ args a) (KeepsArguments a₀ args a) (fun _ => True) (fun _ _ => True)
      visit literal.body) :
    Ensures env (KeepsArguments a₀ args a) (KeepsArguments a₀ args a) (analyseClosure visit x literal)
      fun _ => True := by
  refine ensures_analyseClosure_of_closureAs (V := fun _ => True) (P := fun _ => True) id
    (fun _ _ _ _ => trivial) (fun _ _ => trivial) fun params ret hlen _ _ => ?_
  have hexpect : Ensures env (KeepsArguments a₀ args a) (KeepsArguments a₀ args a)
      (expectType visit ret literal.body) fun _ => True :=
    ensures_expect (.trivial env) (.trivial env _) id hbody trivial
  refine .of_state fun s hs => ?_
  rw [runIn_closureAs]
  have hs' := hexpect.state (s := s.enter (literal.named params)) hs
  exact keepsArguments_modifyKind hs' (bare_withClosureVariables_of_holds hs'.holds hx hbare (by simp [hlen]))

section Chains

variable (hf : a₀.IsForest roots) (hslot : a₀.Level roots k slot) (hargs : args ⊆ (a₀.get slot).kind.operands)
include hf hslot hargs

/-- The node at the end of a chain may do anything with its operands, since they are not on any chain. -/
theorem ensures_keeps_nodeType (harg : arg ∈ args) (hchain : a₀.Chain arg x)
    (hplain : ¬ (a₀.get x).IsConversion) {e : Expr} (he : e.bare = (a₀.get x).bare) (n : Nat)
    (e? : Option Expectation) :
    Ensures env (KeepsArguments a₀ args a) (KeepsArguments a₀ args a)
      (nodeType (analyseExprWithin n) x e e?) fun _ => True := by
  have hlt : x < a₀.size := hf.inRange.isRegion.of_reaches
    (hf.lt_size_of_level (.child hslot (hargs harg))) hchain.reaches
  have hops : e.kind.operands = (a₀.get x).kind.operands := Expr.operands_eq_of_bare_eq he
  have hvisits (c : Slot) (hc : c ∈ (a₀.get x).kind.operands) :
      Visits env (KeepsArguments a₀ args a) (KeepsArguments a₀ args a) (fun _ => True) (fun _ _ => True)
        (analyseExprWithin n) c :=
    have hclt : c < a₀.size := hf.inRange x hlt c hc
    visits_keeps_of_walks (walks_analyseExprWithin (Arena.isRegion_reaches hf.inRange hclt) n) hf.inRange hclt
      fun y hy => hf.not_chain_of_chain hslot hargs harg hchain hplain hc hy
  have hstable := stable_keeps hlt (ExprKind.passed_subset_operands _) hvisits
  have hoperands : e.kind.operands ⊆ (a₀.get x).kind.operands := by
    rw [hops]
    exact List.Subset.refl _
  refine ensures_nodeType (.trivial env) (.trivial env _) hstable (by simp) hoperands (fun _ _ _ _ => trivial)
    (fun name id? hk => ensures_keeps_analyseLocal x name) (fun literal hk => ?_) (by simp)
  have hbody : literal.body ∈ (a₀.get x).kind.operands := by
    rw [← hops, hk]
    exact List.mem_singleton.mpr rfl
  have hbare : (a₀.get x).kind.bare = (ExprKind.closure literal).bare := by
    rw [← hk]
    exact (congrArg Expr.kind he).symm
  exact ensures_keeps_analyseClosure hlt hbare (hvisits literal.body hbody)

/-- Typing an argument neither converts it nor changes what stands behind its conversions. -/
theorem ensures_keeps_analyseExprWithin (harg : arg ∈ args) (hchain : a₀.Chain arg x) (n : Nat)
    (e? : Option Expectation) :
    Ensures env (KeepsArguments a₀ args a) (KeepsArguments a₀ args a) (analyseExprWithin n x e?) fun _ => True := by
  induction n generalizing x e? with
  | zero => exact .pure trivial
  | succ n ih =>
    have hlt : x < a₀.size := hf.inRange.isRegion.of_reaches
      (hf.lt_size_of_level (.child hslot (hargs harg))) hchain.reaches
    show Ensures env _ _ (analyseNode (analyseExprWithin n) x e?) _
    unfold analyseNode
    refine ensures_node.bind fun e ⟨s, hs, he⟩ => ?_
    split
    next => exact .pure trivial
    next htype =>
      have hbare : e.bare = (a₀.get x).bare := he ▸ hs.holds.bare_eq hlt (he ▸ htype)
      have hnode : Ensures env (KeepsArguments a₀ args a) (KeepsArguments a₀ args a)
          (nodeType (analyseExprWithin n) x e e?) fun _ => True := by
        by_cases hconv : (a₀.get x).IsConversion
        · obtain ⟨inner, op, hk⟩ := hconv
          have hke : e.kind = .conversion inner op :=
            ExprKind.eq_conversion_of_bare_eq (congrArg Expr.kind hbare) hk
          unfold nodeType
          rw [hke]
          exact ih (hchain.snoc hk) e?
        · exact ensures_keeps_nodeType hf hslot hargs harg hchain hconv hbare n e?
      exact hnode.bind fun t _ => Ensures.bind (.modify fun s hs => hs.annotate (.withType _ t))
        fun _ (_ : True) => .pure trivial

end Chains

section Call

variable (hf : a₀.IsForest roots) (hslot : a₀.Level roots k slot)
include hf hslot

theorem stable_keeps_passed (n : Nat) :
    let keeps := KeepsArguments a₀ (a₀.get slot).kind.passed a
    Stable env keeps keeps (fun _ => True) (fun _ => True) (fun _ _ => False) (analyseExprWithin n) slot
      (a₀.get slot).kind.passed :=
  stable_keeps (hf.lt_size_of_level hslot) (List.Subset.refl _) fun c hc =>
    visits_keeps_of_ensures fun e? => ensures_keeps_analyseExprWithin hf hslot
      (ExprKind.passed_subset_operands _) hc (.here c) n e?

theorem ensures_keeps_prepareFunctionCall (receiver? : Option Ty) {id : FunctionId}
    (hid : id < env.package.functions.length) (n : Nat) :
    let keeps := KeepsArguments a₀ (a₀.get slot).kind.passed a
    Ensures env keeps keeps
      (prepareFunctionCall (analyseExprWithin n) slot receiver? (env.package.signature id)) fun _ => True := by
  intro keeps
  have hstable : Stable env keeps keeps _ _ _ _ _ _ := stable_keeps_passed hf hslot n
  unfold prepareFunctionCall prepareCall
  refine Ensures.bind (Q := fun _ => True) ?_ fun _ _ => .pure trivial
  refine (ensures_argumentsOf hstable _).bind fun arguments _ => ?_
  refine (ensures_checkUse hstable _ _).bind fun _ _ => ?_
  have hgenerics : Ensures env _ _ (do
      let generics ← ensureGenericArguments (analyseExprWithin n) slot receiver? (env.package.signature id)
      return (arguments, generics)) fun _ => True :=
    (ensures_ensureGenericArguments hstable (.trivial env) (by simp) hid).bind fun _ _ => .pure trivial
  split
  · exact (Ensures.throw (fun _ hs => hs) _).bind fun _ (_ : True) => hgenerics
  · exact hgenerics

/-- Preparing a call leaves its arguments and what stands behind their conversions what they are. -/
theorem ensures_keeps_prepareCall? {e : Expr} (he : e.bare = (a₀.get slot).bare) {step : Analysis (Analysis Ty)}
    (hstep : prepareCall? (analyseExprWithin n) slot e.span e.kind = some step) :
    let keeps := KeepsArguments a₀ (a₀.get slot).kind.passed a
    Ensures env keeps keeps step fun _ => True := by
  have hlt := hf.lt_size_of_level hslot
  have hops : e.kind.operands = (a₀.get slot).kind.operands := Expr.operands_eq_of_bare_eq he
  have hpassed : e.kind.passed = (a₀.get slot).kind.passed :=
    ExprKind.passed_eq_of_bare_eq (congrArg Expr.kind he)
  -- The receiver or callee is an operand of its own, which may be converted.
  have hvisit (c : Slot) (hc : c ∈ e.kind.operands) (hne : c ∉ e.kind.passed) :
      let keeps := KeepsArguments a₀ (a₀.get slot).kind.passed a
      Visits env keeps keeps (fun _ => True) (fun _ _ => True) (analyseExprWithin n) c := by
    rw [hops] at hc
    rw [hpassed] at hne
    have hclt : c < a₀.size := hf.inRange slot hlt c hc
    exact visits_keeps_of_walks (walks_analyseExprWithin (Arena.isRegion_reaches hf.inRange hclt) n) hf.inRange
      hclt fun y hy => hf.not_chain_of_mem hslot (ExprKind.passed_subset_operands _) hc hne hy
  have hnodup : e.kind.operands.Nodup := hops ▸ hf.operands_nodup slot
  intro keeps
  have hfound (receiver? : Option Ty) {id : FunctionId} (hid : id < env.package.functions.length) :
      Ensures env keeps keeps (do
        modifyKind slot (·.withTarget id)
        prepareFunctionCall (analyseExprWithin n) slot receiver? (env.package.signature id)) fun _ => True :=
    Ensures.bind (.modify fun s hs => keepsArguments_modifyKind hs (by simp)) fun _ (_ : True) =>
      ensures_keeps_prepareFunctionCall hf hslot receiver? hid n
  cases hk : e.kind with
  | call function arguments target? =>
    rw [hk] at hstep
    obtain rfl := Option.some.inj hstep
    refine Ensures.read.bind fun _ henv => ?_
    obtain rfl := henv
    dsimp only
    split
    next => exact .throw (fun _ hs => hs) _
    next id hid => exact hfound none (Package.lt_of_function? hid)
  | methodCall receiver method arguments target? =>
    rw [hk] at hstep hvisit hnodup
    obtain rfl := Option.some.inj hstep
    have hreceiver := ensures_preferSimple (.trivial env) (.trivial env _) id
      (hvisit receiver List.mem_cons_self (List.nodup_cons.mp hnodup).1)
    rw [← bind_assoc]
    refine hreceiver.bind fun held _ => ?_
    refine Ensures.read.bind fun _ henv => ?_
    obtain rfl := henv
    dsimp only
    split
    next => exact .throw (fun _ hs => hs) _
    next id hid => exact hfound _ (Package.lt_of_method? hid)
  | invoke callee args =>
    rw [hk] at hstep hvisit hnodup
    obtain rfl := Option.some.inj hstep
    refine ((hvisit callee List.mem_cons_self (List.nodup_cons.mp hnodup).1).ensures (by simp)).bind fun t _ => ?_
    split
    · exact .pure trivial
    · split
      · dsimp only
        split
        · exact (Ensures.throw (fun _ hs => hs) _).bind fun _ (_ : True) => .pure trivial
        · exact .pure trivial
      · exact (ensures_spanOf callee).bind fun _ _ => .throw (fun _ hs => hs) _
  | _ => rw [hk] at hstep; cases hstep

end Call

variable {s s' : AnalysisState} {err : SemanticError} {step : Analysis (Analysis Ty)}

/--
A call that fails before its arguments are checked fails as a whole, and leaves the conversion depth of
each of its arguments as it was.
-/
theorem conversionDepth_eq_of_prepareCall?_error (hf : a₀.IsForest roots) (hacyclic : a₀.IsAcyclic)
    (hslot : a₀.Level roots k slot) (hedits : Arena.Edits (· < a₀.size) a₀ s.body.arena)
    (htype : (s.body.arena.get slot).type? = none)
    (hstep : prepareCall? (analyseExprWithin n) slot (s.body.arena.get slot).span
      (s.body.arena.get slot).kind = some step)
    (hrun : step.runIn env s = (.error err, s')) (e? : Option Expectation) :
    (analyseExprWithin (n + 1) slot e?).runIn env s = (.error err, s') ∧
      ∀ arg ∈ (s.body.arena.get slot).kind.passed,
        s'.body.arena.conversionDepth arg = s.body.arena.conversionDepth arg := by
  have hlt := hf.lt_size_of_level hslot
  have hholds : s.body.arena.HoldsNodesOf a₀ := (Arena.HoldsNodesOf.refl a₀).edits hedits fun _ hx => hx
  have hbare := hholds.bare_eq hlt htype
  refine ⟨?_, fun arg harg => ?_⟩
  · show (analyseNode (analyseExprWithin n) slot e?).runIn env s = _
    unfold analyseNode
    rw [runIn_bind, runIn_node]
    dsimp only
    rw [htype]
    dsimp only
    rw [nodeType_eq_of_prepareCall? hstep, runIn_bind, runIn_bind, hrun]
  · have hkeeps := (ensures_keeps_prepareCall? hf hslot hbare hstep).error (Arena.KeepsChains.refl hholds _) hrun
    rw [ExprKind.passed_eq_of_bare_eq (congrArg Expr.kind hbare)] at harg
    refine hkeeps.conversionDepth_eq hf.inRange hacyclic hedits harg ?_
    exact hf.inRange slot hlt arg (ExprKind.passed_subset_operands _ harg)

end Analysis

end Boxlang
