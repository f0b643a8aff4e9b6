import Boxlang.Package
import Boxlang.Proofs.Types.ClassGraph

/-!
# Subtyping by recursion alone

Comparisons and walks as they call themselves, with nothing else that would stop them.  A run
is given a number of nested calls, and has no result where these did not suffice.  What calls
itself ends if its runs have a result, and the same one, from some number of calls on
(`EndsWith`).  An ancestor or a common supertype that does not exist is `some none`.

Where a class hierarchy is acyclic, the walks over superclasses end with the ancestors and
protocols that the bounded walks find (`IsAcyclic.endsWith_walkRun`,
`IsAcyclic.endsWith_protocolsRun`).  Elsewhere they need not: a walk that looks for nothing
has no result where superclasses go on for ever (`ends_of_walkRun`).
-/

namespace Boxlang

/-! ### Runs that end -/

def EndsWith {α : Type} (run : Nat → Option α) (result : α) : Prop :=
  ∃ n, ∀ m, n ≤ m → run m = some result

namespace EndsWith

variable {α β : Type} {run run' : Nat → Option α} {a : α} {b : β}

theorem const (a : α) : EndsWith (fun _ => some a) a :=
  ⟨0, fun _ _ => rfl⟩

theorem congr (h : EndsWith run a) (heq : ∀ n, run n = run' n) : EndsWith run' a :=
  h.imp fun _ hn m hm => (heq m).symm.trans (hn m hm)

theorem of_succ (h : EndsWith (fun n => run (n + 1)) a) : EndsWith run a := by
  obtain ⟨n, hn⟩ := h
  refine ⟨n + 1, fun m hm => ?_⟩
  obtain ⟨k, rfl⟩ := Nat.exists_eq_add_of_le' (Nat.one_le_of_lt hm)
  exact hn k (Nat.le_of_succ_le_succ hm)

theorem bind {f : Nat → α → Option β} (h : EndsWith run a) (hf : EndsWith (f · a) b) :
    EndsWith (fun n => run n >>= f n) b := by
  obtain ⟨n, hn⟩ := h
  obtain ⟨k, hk⟩ := hf
  refine ⟨max n k, fun m hm => ?_⟩
  obtain ⟨hnm, hkm⟩ := Nat.max_le.mp hm
  simp only [hn m hnm, Option.bind_eq_bind, Option.bind_some]
  exact hk m hkm

theorem map {f : α → β} (h : EndsWith run a) : EndsWith (fun n => f <$> run n) (f a) :=
  h.imp fun _ hn m hm => by simp [hn m hm]

theorem allM {f : Nat → α → Option Bool} {g : α → Bool} {xs : List α}
    (h : ∀ x ∈ xs, EndsWith (f · x) (g x)) : EndsWith (fun n => xs.allM (f n)) (xs.all g) := by
  induction xs with
  | nil => exact const true
  | cons x xs ih =>
      obtain ⟨hx, hxs⟩ := List.forall_mem_cons.mp h
      rw [List.all_cons]
      refine hx.bind ?_
      cases g x with
      | false => exact const false
      | true => exact ih hxs

end EndsWith

namespace Declarations

section

variable (d : Declarations) (c : GenericContext)

/-! ### Walks -/

/-- The first answer of `f` on a type or one of its ancestors, if the walk meets one. -/
def walkRun {α : Type} (f : Nat → Ty → Option (Option α)) : Nat → Ty → Option (Option α)
  | 0, _ => none
  | n + 1, t => do
    match ← f n t with
    | some answer => return some answer
    | none =>
      match d.superclass? t with
      | some s => walkRun f n s
      | none => return none

/-- The first answer of `f` on a proper ancestor of a type. -/
def ancestorRun {α : Type} (f : Nat → Ty → Option (Option α)) (n : Nat) (t : Ty) : Option (Option α) :=
  match d.superclass? t with
  | some s => d.walkRun f n s
  | none => some none

def classProtocolsRun : Nat → Ty → Option (List String)
  | 0, _ => none
  | n + 1, t =>
    match d.superclass? t with
    | some s => (d.classProtocols t ++ ·) <$> classProtocolsRun n s
    | none => some (d.classProtocols t)

/-- The protocols of a type; those of a class are collected along its superclasses. -/
def protocolsRun (n : Nat) (t : Ty) : Option (List String) :=
  match t with
  | .object _ _ => d.classProtocolsRun n t
  | t => some (d.protocolsOf t)

/-! ### Comparisons -/

inductive Comparison where
  /-- The types tell whether they are related. -/
  | answer (related : Bool)
  /-- The second type is looked for among the ancestors of the first. -/
  | inherits
  /-- The protocol is looked for among those of the first type. -/
  | conforms (protocol : String)
  /-- All pairs have to be related.  They are compared in order, until one comparison fails. -/
  | pairs (pairs : List (Ty × Ty))

def comparison (sub sup : Ty) : Comparison :=
  if sub.isError || sup.isError || sub == sup then .answer true
  else
    match sub, sup with
    | .optional _, .something | .typeValue _, .something | .nothing, .something => .answer false
    | _, .something => .answer true
    | .optional a, .optional b => .pairs [(a, b)]
    | .optional _, _ => .answer false
    | a, .optional b => .pairs [(a, b)]
    | .localGeneric _ _, b | .generic _ _, b =>
      match c.constraint? sub with
      | some bound => if bound = sub then .answer false else .pairs [(bound, b)]
      | none => .answer false
    | .object _ _, .object _ _ => .inherits
    | _, .protocol name => .conforms name
    | .callable params ret, .callable params' ret' =>
      if params.length = params'.length then .pairs (params'.zip params ++ [(ret, ret')])
      else .answer false
    | .typeValue a, .typeValue b => .pairs [(a, b)]
    | _, _ => .answer false

def subtypeRun : Nat → Ty → Ty → Option Bool
  | 0, _, _ => none
  | n + 1, sub, sup =>
    match comparison c sub sup with
    | .answer related => some related
    | .inherits => Option.isSome <$> d.ancestorRun (fun _ s => some (Option.guard (· == sup) s)) n sub
    | .conforms protocol => (List.contains · protocol) <$> d.protocolsRun n sub
    | .pairs pairs => pairs.allM fun q => subtypeRun n q.1 q.2

/-! ### Common supertypes -/

/-- The nearest common ancestor of two types, else a protocol of both, else the top. -/
def nominalJoinRun (n : Nat) (a b : Ty) : Option Ty := do
  let above (n : Nat) (s : Ty) : Option (Option Ty) := do
    return if ← d.subtypeRun c n b s then some s else none
  match ← d.ancestorRun above n a with
  | some ancestor => return ancestor
  | none =>
    let theirs ← d.protocolsRun n b
    let ours ← d.protocolsRun n a
    match ours.find? theirs.contains with
    | some name => return .protocol name
    | none => return .something

def commonSupertypeRun? : Nat → Ty → Ty → Option (Option Ty)
  | 0, _, _ => none
  | n + 1, a, b => do
    if a.erased.isError then return some b.erased
    if ← d.subtypeRun c n a.erased b.erased then return some b.erased
    if ← d.subtypeRun c n b.erased a.erased then return some a.erased
    match a.erased, b.erased with
    | .optional x, .optional y => return (← commonSupertypeRun? n x y).map .optional
    | .optional x, y => return (← commonSupertypeRun? n x y).map .optional
    | x, .optional y => return (← commonSupertypeRun? n y x).map .optional
    | .typeValue x, .typeValue y => return (← commonSupertypeRun? n x y).map .typeValue
    | .typeValue _, _ | .nothing, _ | _, .typeValue _ | _, .nothing => return none
    | x, y => return some (← d.nominalJoinRun c n x y)

end

variable {d : Declarations} {c : GenericContext} {s t : Ty} {α : Type}

/-! ### Walks that end -/

theorem ends_of_walkRun {f : Nat → Ty → Option (Option α)} {n : Nat} {r : Option α}
    (hf : ∀ n s, f n s = some none) (h : d.walkRun f n t = some r) : d.Ends t := by
  induction n generalizing t with
  | zero => cases h
  | succ n ih =>
      refine Acc.intro t fun s hs => ?_
      have hs : d.superclass? t = some s := hs
      simp only [walkRun, hf, hs] at h
      exact ih h

namespace IsAcyclic

/-- Steps beyond the end of a walk change nothing. -/
theorem ancestorsWithin_eq (hd : d.IsAcyclic) {n m : Nat} (hn : hd.climb t ≤ n) (hm : hd.climb t ≤ m) :
    d.ancestorsWithin n t = d.ancestorsWithin m t := by
  induction t using hd.induction generalizing n m with
  | h t ih =>
      cases h : d.superclass? t with
      | none => cases n <;> cases m <;> simp [ancestorsWithin, h]
      | some s =>
          rw [hd.climb_of_some h] at hn hm
          obtain ⟨n, rfl⟩ := Nat.exists_eq_add_of_le' (Nat.one_le_of_lt hn)
          obtain ⟨m, rfl⟩ := Nat.exists_eq_add_of_le' (Nat.one_le_of_lt hm)
          simp [ancestorsWithin, h, ih s h (Nat.le_of_succ_le_succ hn) (Nat.le_of_succ_le_succ hm)]

theorem ancestors_of_none (h : d.superclass? t = none) : d.ancestors t = [] := by
  unfold ancestors
  cases d.ancestorSteps t <;> simp [ancestorsWithin, h]

variable (hd : d.IsAcyclic)
include hd

theorem ancestors_of_extends (h : d.Extends t s) : d.ancestors t = d.lineage s := by
  have hsteps := hd.climb_le_ancestorSteps t
  rw [hd.climb_of_some h] at hsteps
  obtain ⟨n, hn⟩ := Nat.exists_eq_add_of_le' (Nat.one_le_of_lt hsteps)
  rw [hn] at hsteps
  have hrest := hd.ancestorsWithin_eq (Nat.le_of_succ_le_succ hsteps) (hd.climb_le_ancestorSteps s)
  rw [ancestors, hn, ancestorsWithin, show d.superclass? t = some s from h, lineage, ancestors]
  exact congrArg (s :: ·) hrest

/-- A walk ends, with the first answer on the lineage of the type that it starts from. -/
theorem endsWith_walkRun {f : Nat → Ty → Option (Option α)} {g : Ty → Option α}
    (hf : ∀ s, EndsWith (f · s) (g s)) (t : Ty) :
    EndsWith (fun n => d.walkRun f n t) ((d.lineage t).findSome? g) := by
  induction t using hd.induction with
  | h t ih =>
      refine .of_succ ((hf t).bind ?_)
      rw [lineage, List.findSome?_cons]
      cases g t with
      | some answer => exact .const _
      | none =>
          cases h : d.superclass? t with
          | none =>
              rw [ancestors_of_none h]
              exact .const none
          | some s =>
              rw [hd.ancestors_of_extends h]
              exact ih s h

theorem endsWith_ancestorRun {f : Nat → Ty → Option (Option α)} {g : Ty → Option α}
    (hf : ∀ s, EndsWith (f · s) (g s)) (t : Ty) :
    EndsWith (fun n => d.ancestorRun f n t) (d.findSomeAncestor? t g) := by
  rw [findSomeAncestor?_eq_findSome?]
  unfold ancestorRun
  cases h : d.superclass? t with
  | none =>
      rw [ancestors_of_none h]
      exact .const none
  | some s =>
      rw [hd.ancestors_of_extends h]
      exact hd.endsWith_walkRun hf s

theorem endsWith_classProtocolsRun (t : Ty) :
    EndsWith (fun n => d.classProtocolsRun n t) ((d.lineage t).flatMap d.classProtocols) := by
  induction t using hd.induction with
  | h t ih =>
      refine .of_succ ?_
      rw [lineage, List.flatMap_cons]
      simp only [classProtocolsRun]
      cases h : d.superclass? t with
      | none =>
          rw [ancestors_of_none h, List.flatMap_nil, List.append_nil]
          exact .const _
      | some s =>
          rw [hd.ancestors_of_extends h]
          exact (ih s h).map

theorem endsWith_protocolsRun (t : Ty) : EndsWith (fun n => d.protocolsRun n t) (d.protocolsOf t) := by
  cases t with
  | object name args => exact hd.endsWith_classProtocolsRun _
  | _ => exact .const _

end IsAcyclic

end Declarations

def Package.methodRun? (p : Package) (n : Nat) (t : Ty) (name : String) : Option (Option Nat) :=
  p.declarations.walkRun (fun _ s => some (p.ownMethod? name s)) n t.unboxed

end Boxlang
