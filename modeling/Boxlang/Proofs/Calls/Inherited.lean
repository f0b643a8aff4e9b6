import Boxlang.Analysis.Package
import Boxlang.Proofs.Calls.Run
import Boxlang.Proofs.Types.Variables

/-!
# Calls of inherited methods

A method may be found on an ancestor of the receiver's type, and then its signature is
written in the variables of that ancestor.  A call, however, replaces them by the
arguments of the receiver's type itself.  So the call sees the signature that the
ancestor gives it exactly if all variables in it have the same argument on both
(`runIn_analyseFunctionCall_of_findsOn`), as they have where every class hands its own
variables on in their order (`seenOn_eq_of_handsOn`), but not where a class permutes or
fixes them.
-/

namespace Boxlang

/-! ### Where a method is found -/

/-- The method is declared by `owner`, and by no type before it in the lineage of `t`. -/
structure Package.FindsOn (p : Package) (t : Ty) (name : String) (owner : Ty) (id : FunctionId) :
    Prop where
  own : p.ownMethod? name owner = some id
  nearest : ∃ nearer farther, p.declarations.lineage t.unboxed = nearer ++ owner :: farther ∧
    ∀ u ∈ nearer, p.ownMethod? name u = none

namespace Package

variable {p : Package} {t owner : Ty} {name : String} {id : FunctionId}

theorem method?_eq_findSome? (p : Package) (t : Ty) (name : String) :
    p.method? t name = (p.declarations.lineage t.unboxed).findSome? (p.ownMethod? name) := by
  rw [method?, Declarations.findSomeAncestor?_eq_findSome?, Declarations.lineage, List.findSome?_cons]
  cases p.ownMethod? name t.unboxed <;> rfl

/-- What lookup gives is what the nearest type that declares the method has. -/
theorem method?_eq_some_iff : p.method? t name = some id ↔ ∃ owner, p.FindsOn t name owner id := by
  rw [method?_eq_findSome?, List.findSome?_eq_some_iff]
  constructor
  · rintro ⟨nearer, owner, farther, hsplit, hown, hnone⟩
    exact ⟨owner, hown, nearer, farther, hsplit, hnone⟩
  · rintro ⟨owner, hown, nearer, farther, hsplit, hnone⟩
    exact ⟨nearer, owner, farther, hsplit, hown, hnone⟩

theorem FindsOn.mem_lineage (h : p.FindsOn t name owner id) :
    owner ∈ p.declarations.lineage t.unboxed := by
  obtain ⟨nearer, farther, hsplit, -⟩ := h.nearest
  simp [hsplit]

theorem FindsOn.reflTransGen (hd : p.declarations.IsAcyclic) (h : p.FindsOn t name owner id) :
    Relation.ReflTransGen p.declarations.Extends t.unboxed owner := by
  rcases List.mem_cons.mp h.mem_lineage with rfl | hmem
  · exact .refl
  · exact ((hd.mem_ancestors_iff).mp hmem).to_reflTransGen

end Package

/-! ### Signatures as callers see them -/

namespace Ty

def typeArgs (t : Ty) : List Ty :=
  match t.unboxed with
  | .object _ args | .value _ args => args
  | _ => []

/--
A type in the signature of a method of `owner`, as callers see it: the variables of the
owner and of the method stand for their arguments, in boxes.
-/
def seenOn (owner : Ty) (generics : List Ty) (t : Ty) : Ty :=
  t.subst (fun i => owner.typeArgs[i]?.map inBox) (fun j => generics[j]?.map inBox)

/-- If the type is a variable of an owner, it has the same argument, if any, on `t` and on `u`. -/
def SameArg (t u : Ty) : Ty → Prop
  | .generic i _ => t.typeArgs[i]?.map inBox = u.typeArgs[i]?.map inBox
  | _ => True

theorem unboxed_of_isUnmarked {t : Ty} (h : t.IsUnmarked) : t.unboxed = t := by
  cases t <;> first | rfl | exact h.elim

theorem inBox_ne_generic (t : Ty) (i : Nat) (n : String) : t.inBox ≠ .generic i n := by
  cases t <;> simp [inBox]

theorem getD_map_inBox_eq_iff {a? b? : Option Ty} {i : Nat} {n : String} :
    (a?.map inBox).getD (.generic i n) = (b?.map inBox).getD (.generic i n) ↔
      a?.map inBox = b?.map inBox := by
  cases a? <;> cases b? <;> simp [inBox_ne_generic, (inBox_ne_generic _ _ _).symm]

theorem replacedAlike_iff_sameArg {t u : Ty} {generics : List Ty} (v : Ty) :
    ReplacedAlike (fun i => t.typeArgs[i]?.map inBox) (fun j => generics[j]?.map inBox)
      (fun i => u.typeArgs[i]?.map inBox) (fun j => generics[j]?.map inBox) v ↔ SameArg t u v := by
  cases v <;> simp [ReplacedAlike, SameArg, getD_map_inBox_eq_iff]

/-- Owners whose arguments agree on the variables of a type show it alike. -/
theorem seenOn_congr {t u v : Ty} (generics : List Ty) (h : v.Every (SameArg t u)) :
    t.seenOn generics v = u.seenOn generics v :=
  subst_congr v (h.mono fun w => (replacedAlike_iff_sameArg w).mpr)

theorem seenOn_eq_iff {t u v : Ty} (generics : List Ty) (hv : v.Every IsUnmarked) :
    t.seenOn generics v = u.seenOn generics v ↔ v.Every (SameArg t u) := by
  rw [seenOn, seenOn, subst_eq_subst_iff hv]
  exact ⟨fun h => h.mono fun w => (replacedAlike_iff_sameArg w).mp,
    fun h => h.mono fun w => (replacedAlike_iff_sameArg w).mpr⟩

end Ty

/-! ### Classes that hand their variables on -/

namespace Declarations

variable {d : Declarations} {t u : Ty}

/-- Every superclass is a class applied to variables of the class that names it, in their order. -/
def HandsOn (d : Declarations) : Prop :=
  ∀ name decl u, d.class? name = some decl → decl.superclass = some u →
    ∃ (m : String) (args : List Ty), u = .object m args ∧
      ∀ (i : Nat) (a : Ty), args[i]? = some a → ∃ n, a = .generic i n

theorem Extends.typeArgs_of_handsOn (hd : d.WellFormed) (hh : d.HandsOn) (h : d.Extends t u)
    (ht : t.Every d.IsSaturated) {i : Nat} {a : Ty} (ha : u.typeArgs[i]? = some a) :
    t.typeArgs[i]? = some a := by
  obtain ⟨name, args, decl, v, rfl, hdecl, hsuper, rfl⟩ := h.exists_superclass
  obtain ⟨m, vs, rfl, hvs⟩ := hh name decl v hdecl hsuper
  have hv : vs[i]?.map (Ty.subst (fun i => args[i]?) fun _ => none) = some a := by
    simpa [Ty.subst, Ty.typeArgs, Ty.unboxed, Ty.substAll_eq_map] using ha
  obtain ⟨b, hb, rfl⟩ := Option.map_eq_some_iff.mp hv
  obtain ⟨n, rfl⟩ := hvs i b hb
  have hscope : i < decl.generics.length :=
    (Ty.everyAll_iff.mp (hd.inScope name decl _ hdecl hsuper).2 _ (List.mem_of_getElem? hb)).self
  have hi : i < args.length := (ht.1 decl hdecl).symm ▸ hscope
  simp [Ty.typeArgs, Ty.unboxed, Ty.subst, hi]

/-- The arguments of an ancestor are arguments of the type itself, at the same places. -/
theorem typeArgs_of_reflTransGen (hd : d.WellFormed) (hh : d.HandsOn)
    (h : Relation.ReflTransGen d.Extends t u) (ht : t.Every d.IsSaturated) {i : Nat} {a : Ty}
    (ha : u.typeArgs[i]? = some a) : t.typeArgs[i]? = some a := by
  induction h using Relation.ReflTransGen.head_induction_on with
  | refl => exact ha
  | head h _ ih => exact h.typeArgs_of_handsOn hd hh ht (ih (h.every_isSaturated hd ht))

end Declarations

/-- If the type is a variable of an owner, it is one of the first `n`. -/
def Ty.IsOwnerScoped (n : Nat) : Ty → Prop
  | .generic i _ => i < n
  | _ => True

/-- Where classes hand their variables on, a call sees what the owner of the method shows. -/
theorem Package.FindsOn.seenOn_eq_of_handsOn {p : Package} {t owner : Ty} {name : String} {id : FunctionId}
    (h : p.FindsOn t name owner id) (hacyclic : p.declarations.IsAcyclic)
    (hd : p.declarations.WellFormed) (hh : p.declarations.HandsOn)
    (hmark : t.unboxed.IsUnmarked) (ht : t.unboxed.Every p.declarations.IsSaturated) {v : Ty}
    (hv : v.Every (Ty.IsOwnerScoped owner.typeArgs.length)) (generics : List Ty) :
    t.seenOn generics v = owner.seenOn generics v := by
  refine Ty.seenOn_congr generics (hv.mono fun w hw => ?_)
  cases w with
  | generic i n =>
      have hi : i < owner.typeArgs.length := hw
      have harg := Declarations.typeArgs_of_reflTransGen hd hh (h.reflTransGen hacyclic) ht
        (List.getElem?_eq_getElem hi)
      have hunboxed : t.unboxed.typeArgs = t.typeArgs := by
        rw [Ty.typeArgs, Ty.unboxed_of_isUnmarked hmark, Ty.typeArgs]
      simp [Ty.SameArg, ← hunboxed, harg, hi]
  | _ => trivial

def Signature.types (f : Signature) : List Ty :=
  f.ret :: f.params.map (·.type)

theorem Environment.instantiate_calleeContext (env : Environment) (receiver : Ty) (target : Signature)
    (generics : List Ty) :
    ({ env.calleeContext (some receiver) target with args := generics } : GenericContext).instantiate =
      receiver.seenOn generics := by
  funext t
  have howner : ({ env.calleeContext (some receiver) target with args := generics } :
      GenericContext).ownerArg? = fun i => receiver.typeArgs[i]? := by
    funext i
    simp only [GenericContext.ownerArg?, calleeContext, Option.map_some, Ty.typeArgs]
    cases receiver.unboxed <;> rfl
  simp only [GenericContext.instantiate, howner, Ty.seenOn]

namespace Analysis

variable {env : Environment} {s s₁ : AnalysisState} {visit : Visit} {slot : Slot} {arguments : Arguments}
  {generics : List Ty}

/--
A call of a method that is found on `owner` checks its arguments, and has its result,
as the signature is seen on the receiver.  That is what `owner` shows of it exactly if
the variables in it have the same arguments on both.
-/
theorem runIn_analyseFunctionCall_of_findsOn {receiver owner : Ty} {name : String} {id : FunctionId}
    (hfound : env.package.FindsOn receiver name owner id)
    (hunmarked : ∀ u ∈ (env.package.signature id).types, u.Every Ty.IsUnmarked)
    (hprepare : (prepareCall visit slot (some receiver) (env.package.signature id)).runIn env s =
      (.ok (arguments, generics), s₁)) :
    (analyseFunctionCall visit slot (some receiver) (env.package.signature id)).runIn env s =
        (checkArguments visit (receiver.seenOn generics) (env.package.signature id) arguments).runIn env s₁ ∧
      env.package.method? receiver name = some id ∧
      ∀ u ∈ (env.package.signature id).types,
        (receiver.seenOn generics u = owner.seenOn generics u ↔ u.Every (Ty.SameArg receiver owner)) := by
  refine ⟨?_, Package.method?_eq_some_iff.mpr ⟨owner, hfound⟩, fun u hu =>
    Ty.seenOn_eq_iff generics (hunmarked u hu)⟩
  rw [analyseFunctionCall_eq, runIn_bind, hprepare]
  dsimp only
  rw [runIn_bind, runIn_read]
  dsimp only
  rw [env.instantiate_calleeContext]

end Analysis

/-! ### A class that hands its variables on, and one that swaps them -/

/-- A pair with a method, a triple that hands two variables on, and a class that swaps them. -/
def pairPackage : Package where
  declarations := ((Declarations.prelude.addClass "Pair" { generics := ["A", "B"] }).addClass "Triple"
      { superclass := some (.object "Pair" [.generic 0 "A", .generic 1 "B"]), generics := ["A", "B", "C"] }).addClass
    "Swapped" { superclass := some (.object "Pair" [.generic 1 "B", .generic 0 "A"]), generics := ["A", "B"] }
  functions := [
    { name := "first", owner? := some (.object "Pair" [.generic 0 "A", .generic 1 "B"]), ret := .generic 0 "A" },
    { name := "main", params := [⟨"x", .object "Swapped" [.int, .string]⟩] },
    { name := "other", params := [⟨"x", .object "Triple" [.int, .string, .bool]⟩] }]

/-- `x.first()` -/
def readFirst : Body where
  arena := { nodes := #[
    { span := ⟨0, 1⟩, kind := .localRef ⟨"x", ⟨0, 1⟩⟩ none },
    { span := ⟨10, 1⟩, kind := .methodCall 0 ⟨"first", ⟨10, 1⟩⟩ { span := ⟨10, 1⟩, args := [] } none }] }
  stmts := [.expr 1]

theorem isAcyclic_pairPackage : pairPackage.declarations.IsAcyclic := by
  refine Declarations.isAcyclic_of_rank (fun name => if name = "Pair" then 0 else 1) fun entry hentry t ht => ?_
  simp only [pairPackage, Declarations.addClass, Declarations.prelude, List.mem_cons, List.not_mem_nil,
    or_false] at hentry
  rcases hentry with rfl | rfl | rfl | rfl
  · exact ⟨_, _, (Option.some.inj ht).symm, by decide⟩
  · exact ⟨_, _, (Option.some.inj ht).symm, by decide⟩
  · cases ht
  · cases ht

theorem findsOn_swapped :
    pairPackage.FindsOn (.object "Swapped" [.int, .string]) "first" (.object "Pair" [.string, .int]) 0 :=
  ⟨rfl, [.object "Swapped" [.int, .string]], [], by decide, by decide⟩

theorem findsOn_triple :
    pairPackage.FindsOn (.object "Triple" [.int, .string, .bool]) "first" (.object "Pair" [.int, .string]) 0 :=
  ⟨rfl, [.object "Triple" [.int, .string, .bool]], [], by decide, by decide⟩

/-- The triple shows the method as the pair does. -/
theorem seenOn_eq_of_triple :
    let env : Environment := { package := pairPackage, function := pairPackage.signature 2 }
    let receiver : Ty := .object "Triple" [.int, .string, .bool]
    let call := Analysis.analyseFunctionCall Analysis.analyseExpr 1 (some receiver) (pairPackage.signature 0)
    pairPackage.FindsOn receiver "first" (.object "Pair" [.int, .string]) 0 ∧
      (call.runIn env (.start (pairPackage.signature 2) readFirst [])).1 = .ok (.boxed .int) ∧
      receiver.seenOn [] (.generic 0 "A") = (Ty.object "Pair" [.int, .string]).seenOn [] (.generic 0 "A") := by
  intro env receiver call
  let prepare := Analysis.prepareCall Analysis.analyseExpr 1 (some receiver) (pairPackage.signature 0)
  let start : AnalysisState := .start (pairPackage.signature 2) readFirst []
  have hprepare : prepare.runIn env start = (.ok ({ span := ⟨10, 1⟩, args := [] }, []), (prepare.runIn env start).2) :=
    Prod.ext (by rfl) rfl
  obtain ⟨hrun, -, hseen⟩ := Analysis.runIn_analyseFunctionCall_of_findsOn findsOn_triple
    (List.forall_mem_singleton.mpr trivial) hprepare
  refine ⟨findsOn_triple, ?_, (hseen _ List.mem_cons_self).mpr (by rfl)⟩
  rw [hrun]
  rfl

/-- The swapped pair does not: the call is an integer, where the pair's method returns a string. -/
theorem seenOn_ne_of_swapped :
    let receiver : Ty := .object "Swapped" [.int, .string]
    let owner : Ty := .object "Pair" [.string, .int]
    pairPackage.declarations.IsAcyclic ∧ pairPackage.FindsOn receiver "first" owner 0 ∧
      ((pairPackage.analyseDefinition true [] ⟨1, readFirst⟩).1.body.arena.get 1).type? = some (.boxed .int) ∧
      (pairPackage.analyseDefinition true [] ⟨1, readFirst⟩).2 = [] ∧
      owner.seenOn [] (pairPackage.signature 0).ret = .boxed .string :=
  ⟨isAcyclic_pairPackage, findsOn_swapped, by decide, by rfl, by decide⟩

end Boxlang
