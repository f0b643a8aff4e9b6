import Boxlang.Proofs.Arena.Forest
import Boxlang.Proofs.Conversion.Sound

/-!
# Elaborated expressions

What an analysed expression without errors looks like.  `FormOk` says of one node
that it is resolved and that the types of its operands fit; `Elaborated` says so of
all nodes of an expression, each in the context of the variables that may be read
there.  Code generation relies on nothing else.
-/

namespace Boxlang

open Conversion

namespace Arena

def typeAt (a : Arena) (slot : Slot) : Ty :=
  (a.get slot).type?.getD .error

def Reads (a : Arena) (slot : Slot) (id : VariableId) : Prop :=
  ∃ x name, a.Reaches slot x ∧ (a.get x).kind = .localRef name (some id)

end Arena

/-- The types of the variables that may be read at some place. -/
abbrev Context := VariableId → Ty → Prop

/-- The context of the operands of a node: a closure binds its parameters. -/
def Context.under (Γ : Context) : ExprKind → Ty → Context
  | .closure literal, .callable params _ => fun id t =>
    (id, t) ∈ (literal.params.filterMap (·.id?)).zip params ∨ Γ id t
  | _, _ => Γ

theorem filterMap_id?_of_map {params : List ClosureParam} {ids : List VariableId}
    (h : params.map (·.id?) = ids.map some) : params.filterMap (·.id?) = ids := by
  have := congrArg (List.filterMap id) h
  simpa [List.filterMap_map, Function.comp_def] using this

/--
A receiver of type `t` is held as simply as its type permits, and the method is found
on the type with its variables replaced by what is known of them somewhere.
-/
structure ReceiverOk (p : Package) (t : Ty) (method : String) (id : FunctionId) : Prop where
  storage_eq : t.storage = t.erased.storage
  found : ∃ c : GenericContext, p.method? (c.upperBound t.erased) method = some id

/--
A node of type `t` that is resolved and has operands of fitting types.  Arguments
fit a parameter if they are held alike; a closure captures, once each, exactly the
variables from outside that its body reads.
-/
inductive FormOk (p : Package) (a : Arena) (Γ : Context) : ExprKind → Ty → Prop where
  | int (value : Int64) : FormOk p a Γ (.int value) .int
  | real (bits : UInt64) : FormOk p a Γ (.real bits) .real
  | bool (value : Bool) : FormOk p a Γ (.bool value) .bool
  | string (value : String) : FormOk p a Γ (.string value) .string
  | symbol (value : Char) : FormOk p a Γ (.symbol value) .symbol
  | noValue (t : Ty) : FormOk p a Γ .noValue t
  | localRef {name : Ident} {id : VariableId} {t : Ty} :
      Γ id t → FormOk p a Γ (.localRef name (some id)) t
  | call {function : Ident} {arguments : Arguments} {id : FunctionId} {t : Ty} :
      id < p.functions.length →
      arguments.args.length = (p.signature id).params.length →
      (∀ q ∈ (p.signature id).params.zip arguments.args,
        Alike p.declarations (a.typeAt q.2) q.1.type) →
      p.declarations.llvmType t = p.declarations.llvmType (p.signature id).ret →
      FormOk p a Γ (.call function arguments (some id)) t
  | methodCall {receiver : Slot} {method : Ident} {arguments : Arguments} {id : FunctionId}
      {t : Ty} :
      ReceiverOk p (a.typeAt receiver) method.name id → id < p.functions.length →
      arguments.args.length = (p.signature id).params.length →
      (∀ q ∈ (p.signature id).params.zip arguments.args,
        Alike p.declarations (a.typeAt q.2) q.1.type) →
      p.declarations.llvmType t = p.declarations.llvmType (p.signature id).ret →
      FormOk p a Γ (.methodCall receiver method arguments (some id)) t
  | invoke {callee : Slot} {args : List Slot} {params : List Ty} {ret : Ty} :
      (a.typeAt callee).unboxed = .callable params ret → args.length = params.length →
      (∀ q ∈ params.zip args, Alike p.declarations (a.typeAt q.2) q.1) →
      FormOk p a Γ (.invoke callee args) ret
  | closure {literal : Closure} {ids : List VariableId} {params : List Ty} {ret : Ty} :
      literal.params.map (·.id?) = ids.map some → ids.length = params.length → ids.Nodup →
      (∀ id ∈ ids, ∀ t, ¬ Γ id t) → literal.captures.Nodup →
      (∀ id ∈ literal.captures, (∃ t, Γ id t) ∧ a.Reads literal.body id) →
      (∀ id t, Γ id t → a.Reads literal.body id → id ∈ literal.captures) →
      Alike p.declarations (a.typeAt literal.body) ret →
      FormOk p a Γ (.closure literal) (.callable params ret)
  | typeExpr (form : TypeForm) (t : Ty) : FormOk p a Γ (.typeExpr form) (.typeValue t)
  | unwrap (inner : Slot) : FormOk p a Γ (.unwrap inner) (a.typeAt inner)
  | conversion {inner : Slot} {op : Conversion} {t : Ty} :
      ¬ (a.get inner).IsConversion → op.IsSound p.declarations (a.typeAt inner) t →
      FormOk p a Γ (.conversion inner op) t

/-- A node that is typed, without the error type, and fits its operands. -/
structure NodeOk (p : Package) (a : Arena) (Γ : Context) (slot : Slot) : Prop where
  typed : (a.get slot).type? = some (a.typeAt slot)
  mentionsError_eq : (a.typeAt slot).mentionsError = false
  form : FormOk p a Γ (a.get slot).kind (a.typeAt slot)

/-- An expression all of whose nodes are resolved, typed and fit each other. -/
inductive Elaborated (p : Package) (a : Arena) : Context → Slot → Prop where
  | intro {Γ : Context} {slot : Slot} : NodeOk p a Γ slot →
      (∀ c ∈ (a.get slot).kind.operands,
        Elaborated p a (Γ.under (a.get slot).kind (a.typeAt slot)) c) →
      Elaborated p a Γ slot

namespace Arena

variable {a b : Arena} {slot : Slot}

theorem typeAt_of_type? {t : Ty} (h : (a.get slot).type? = some t) : a.typeAt slot = t := by
  simp [typeAt, h]

theorem typeAt_congr {x y : Slot} (h : b.get y = a.get x) : b.typeAt y = a.typeAt x := by
  simp [typeAt, h]

theorem reads_iff {id : VariableId} : a.Reads slot id ↔
    (∃ name, (a.get slot).kind = .localRef name (some id)) ∨
      ∃ c ∈ (a.get slot).kind.operands, a.Reads c id := by
  constructor
  · rintro ⟨x, name, hx, hk⟩
    rcases reaches_iff.mp hx with rfl | ⟨c, hc, hreach⟩
    · exact .inl ⟨name, hk⟩
    · exact .inr ⟨c, hc, x, name, hreach, hk⟩
  · rintro (⟨name, hk⟩ | ⟨c, hc, x, name, hreach, hk⟩)
    · exact ⟨slot, name, .refl a slot, hk⟩
    · exact ⟨x, name, .head hc hreach, hk⟩

/-- Arenas that agree on an expression of one agree on it as one of the other. -/
theorem reaches_congr (hab : ∀ x, a.Reaches slot x → b.get x = a.get x) {x : Slot} :
    b.Reaches slot x ↔ a.Reaches slot x := by
  constructor
  · intro h
    induction h with
    | refl => exact .refl a slot
    | tail _ hc ih => exact Relation.ReflTransGen.tail ih (by rwa [hab _ ih] at hc)
  · exact fun h => h.congr hab

theorem reads_congr (hab : ∀ x, a.Reaches slot x → b.get x = a.get x) (id : VariableId) :
    b.Reads slot id ↔ a.Reads slot id := by
  constructor
  · rintro ⟨x, name, hx, hk⟩
    have hx' := (reaches_congr hab).mp hx
    exact ⟨x, name, hx', by rwa [hab x hx'] at hk⟩
  · rintro ⟨x, name, hx, hk⟩
    exact ⟨x, name, (reaches_congr hab).mpr hx, by rwa [hab x hx]⟩

end Arena

/-! ### Agreement of arenas -/

variable {p : Package} {a b : Arena} {Γ : Context} {slot : Slot}

/-- Whether a node fits depends only on its operands: their nodes and what they read. -/
theorem FormOk.congr {kind : ExprKind} {t : Ty} (h : FormOk p a Γ kind t)
    (hget : ∀ c ∈ kind.operands, b.get c = a.get c)
    (hreads : ∀ c ∈ kind.operands, ∀ id, b.Reads c id ↔ a.Reads c id) : FormOk p b Γ kind t := by
  have htype (c : Slot) (hc : c ∈ kind.operands) : b.typeAt c = a.typeAt c :=
    Arena.typeAt_congr (hget c hc)
  cases h with
  | int v => exact .int v
  | real v => exact .real v
  | bool v => exact .bool v
  | string v => exact .string v
  | symbol v => exact .symbol v
  | noValue t => exact .noValue t
  | localRef h => exact .localRef h
  | call hid hlen hargs hret =>
      refine .call hid hlen (fun q hq => ?_) hret
      rw [htype q.2 (List.of_mem_zip hq).2]
      exact hargs q hq
  | methodCall hreceiver hid hlen hargs hret =>
      refine .methodCall (by rwa [htype _ List.mem_cons_self]) hid hlen (fun q hq => ?_) hret
      rw [htype q.2 (List.mem_cons_of_mem _ (List.of_mem_zip hq).2)]
      exact hargs q hq
  | invoke hcallee hlen hargs =>
      refine .invoke (by rwa [htype _ List.mem_cons_self]) hlen fun q hq => ?_
      rw [htype q.2 (List.mem_cons_of_mem _ (List.of_mem_zip hq).2)]
      exact hargs q hq
  | closure hids hlen hnodup hfresh hcaptures hread hmem hret =>
      have hbody := hreads _ List.mem_cons_self
      refine .closure hids hlen hnodup hfresh hcaptures (fun id hid => ?_) (fun id t ht hr => ?_) ?_
      · exact ⟨(hread id hid).1, (hbody id).mpr (hread id hid).2⟩
      · exact hmem id t ht ((hbody id).mp hr)
      · rwa [htype _ List.mem_cons_self]
  | typeExpr form t => exact .typeExpr form t
  | unwrap inner =>
      rw [← htype inner List.mem_cons_self]
      exact .unwrap inner
  | conversion hplain hsound =>
      refine .conversion (by rwa [hget _ List.mem_cons_self]) ?_
      rwa [htype _ List.mem_cons_self]

theorem NodeOk.congr {y : Slot} (h : NodeOk p a Γ slot) (hslot : b.get y = a.get slot)
    (hget : ∀ c ∈ (a.get slot).kind.operands, b.get c = a.get c)
    (hreads : ∀ c ∈ (a.get slot).kind.operands, ∀ id, b.Reads c id ↔ a.Reads c id) :
    NodeOk p b Γ y := by
  have htype : b.typeAt y = a.typeAt slot := Arena.typeAt_congr hslot
  refine ⟨by rw [hslot, htype]; exact h.typed, htype ▸ h.mentionsError_eq, ?_⟩
  rw [hslot, htype]
  exact h.form.congr hget hreads

namespace Elaborated

theorem nodeOk (h : Elaborated p a Γ slot) : NodeOk p a Γ slot := by
  cases h with
  | intro hnode _ => exact hnode

theorem operands (h : Elaborated p a Γ slot) : ∀ c ∈ (a.get slot).kind.operands,
    Elaborated p a (Γ.under (a.get slot).kind (a.typeAt slot)) c := by
  cases h with
  | intro _ hops => exact hops

/-- An expression is elaborated in every arena that agrees on its nodes. -/
theorem congr (h : Elaborated p a Γ slot) (hab : ∀ x, a.Reaches slot x → b.get x = a.get x) :
    Elaborated p b Γ slot := by
  induction h with
  | @intro Γ slot hnode _ ih =>
      have hself := hab slot (.refl a slot)
      have hop (c : Slot) (hc : c ∈ (a.get slot).kind.operands) (x : Slot) (hx : a.Reaches c x) :
          b.get x = a.get x := hab x (.head hc hx)
      have hok : NodeOk p b Γ slot := hnode.congr hself (fun c hc => hop c hc c (.refl a c))
        fun c hc => Arena.reads_congr (hop c hc)
      refine .intro hok fun c hc => ?_
      rw [hself] at hc ⊢
      rw [Arena.typeAt_congr hself]
      exact ih c hc (hop c hc)

theorem moved {y : Slot} (h : Elaborated p a Γ slot) (hy : b.get y = a.get slot)
    (hops : ∀ c ∈ (a.get slot).kind.operands, ∀ x, a.Reaches c x → b.get x = a.get x) :
    Elaborated p b Γ y := by
  have hok : NodeOk p b Γ y := h.nodeOk.congr hy (fun c hc => hops c hc c (.refl a c))
    fun c hc => Arena.reads_congr (hops c hc)
  refine .intro hok fun c hc => ?_
  rw [hy] at hc ⊢
  rw [Arena.typeAt_congr hy]
  exact (h.operands c hc).congr (hops c hc)

theorem not_reaches_of_mem (h : Elaborated p a Γ slot) :
    ∀ c ∈ (a.get slot).kind.operands, ¬ a.Reaches c slot := by
  induction h with
  | @intro Γ slot _ _ ih =>
      intro c hc hreach
      rcases Arena.reaches_iff.mp hreach with rfl | ⟨c', hc', hreach'⟩
      · exact ih slot hc slot hc (.refl a slot)
      · exact ih c hc c' hc' (Relation.ReflTransGen.tail hreach' hc)

/-- Elaborated expressions consist of nodes that exist. -/
theorem lt_size (h : Elaborated p a Γ slot) : slot < a.size := by
  by_contra hge
  have htyped := h.nodeOk.typed
  rw [Arena.get_of_size_le a (Nat.le_of_not_lt hge)] at htyped
  cases htyped

/-- All nodes of an elaborated expression fit, each in some context. -/
theorem nodeOk_of_reaches (h : Elaborated p a Γ slot) {x : Slot} (hx : a.Reaches slot x) :
    ∃ Δ, Elaborated p a Δ x := by
  induction hx with
  | refl => exact ⟨Γ, h⟩
  | tail _ hc ih =>
      obtain ⟨Δ, hΔ⟩ := ih
      exact ⟨_, hΔ.operands _ hc⟩

end Elaborated

end Boxlang
