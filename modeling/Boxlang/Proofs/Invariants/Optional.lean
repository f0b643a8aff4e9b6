import Boxlang.Proofs.Arena.Rewriting
import Boxlang.Proofs.Conversion.Optional
import Boxlang.Proofs.Elaboration.Complete
import Boxlang.Proofs.Invariants.Mentions

/-!
# Values of optionals are taken out where that is written

In a fresh body that is analysed without errors, a conversion that takes the value out
of an optional stands below an unwrap expression, and nothing but this expression refers
to it; no adapter of a callable contains such a conversion.
-/

namespace Boxlang

open Conversion

/-! ### Types without the error type -/

theorem Environment.ErrorFree.typeInvariant {env : Environment} (he : env.ErrorFree) :
    TypeInvariant env (·.mentionsError = false) (·.mentionsError = false) :=
  Ty.pervasive_mentionsError.typeInvariant
    ⟨he.package.declarations.mentions, fun f hf => (he.package.functions f hf).mentions⟩
    he.function.mentions trivial

theorem Body.denotes_errorFree (body : Body) (env : Environment) :
    body.Denotes env (·.mentionsError = false) (·.mentionsError = false) where
  types _ _ w _ := Signature.mentionsError_resolve _ _ w
  results _ _ w _ := Signature.mentionsError_resolve _ _ w
  stmts _ _ w _ := Signature.mentionsError_resolve _ _ w

/-! ### Conversions -/

namespace Arena

variable {a₀ a : Arena} {home : Slot → Slot} {slot x y : Slot}

/--
A conversion that may be put in front of a slot: the value is taken out of an optional
there only where that is written.
-/
structure Permits (a₀ : Arena) (slot : Slot) (op : Conversion) : Prop where
  adapts : op.AdaptsWithoutUnwrap
  written : op.IsUnwrap → ∃ parent, (a₀.get parent).kind = .unwrap slot

/-- Values meet what is expected of them without being taken out of optionals. -/
theorem conversionInvariant_permits (env : Environment) (a₀ : Arena) :
    ConversionInvariant env (·.mentionsError = false) a₀.Permits := by
  intro slot e t op u hw ht he h
  obtain ⟨hnot, hadapts⟩ := not_isUnwrap_of_compliance hw ht he h
  exact ⟨hadapts, fun hunwrap => absurd hunwrap hnot⟩

theorem permits_of_unwrap {parent : Slot} (h : (a₀.get parent).kind = .unwrap slot) :
    a₀.Permits slot .unwrapOptional ∧ a₀.Permits slot .unwrapBoxOptional :=
  ⟨⟨adaptsWithoutUnwrap_of_entries_eq_nil rfl, fun _ => ⟨parent, h⟩⟩,
    ⟨adaptsWithoutUnwrap_of_entries_eq_nil rfl, fun _ => ⟨parent, h⟩⟩⟩

/-- If a node in one of the first slots is a conversion, it may be there. -/
def HasPermitted (a₀ : Arena) (_ : Nat) (slot : Slot) (e : Expr) : Prop :=
  slot < a₀.size → ∀ inner op, e.kind = .conversion inner op → a₀.Permits slot op

theorem nodeInvariant_hasPermitted (V P : Ty → Prop) (a₀ : Arena) (m : Nat) :
    NodeInvariant V P a₀.Permits a₀ m a₀.HasPermitted :=
  nodeInvariant_conversions V P a₀ m fun hge hlt => absurd hlt (Nat.not_lt_of_le hge)

/-! ### Parents -/

/-- What refers to an original slot in a rewritten arena is the home of what did so before. -/
theorem Rewrites.exists_of_mem_operands (h : Rewrites a₀ a home) (hx : x < a₀.size)
    (hmem : x ∈ (a.get y).kind.operands) :
    ∃ s, home s = y ∧ x ∈ (a₀.get s).kind.operands := by
  by_cases hhome : ∃ s < a₀.size, home s = y
  · obtain ⟨s, hs, rfl⟩ := hhome
    exact ⟨s, rfl, Expr.operands_eq_of_bare_eq (h.bare_home s hs) ▸ hmem⟩
  · -- What was put in refers to fresh slots.
    obtain ⟨hinserted, -⟩ := h.isInserted y (lt_size_of_mem_operands hmem)
      fun s hs heq => hhome ⟨s, hs, heq⟩
    obtain ⟨inner, hinner⟩ := Option.isSome_iff_exists.mp hinserted
    obtain ⟨hge, op, hkind⟩ := insertedInner?_eq_some.mp hinner
    obtain rfl : x = inner := by simpa [hkind, ExprKind.operands] using hmem
    exact absurd hx (Nat.not_lt_of_le hge)

theorem Rewrites.unwrap_of_unwrap {roots : List Slot} (h : Rewrites a₀ a home)
    (hforest : a₀.IsForest roots) {parent : Slot} (hkind : (a₀.get parent).kind = .unwrap x) :
    (a.get (home parent)).kind = .unwrap x ∧
      ∀ y, x ∈ (a.get y).kind.operands → y = home parent := by
  have hmem : x ∈ (a₀.get parent).kind.operands := by simp [hkind, ExprKind.operands]
  have hlt : parent < a₀.size := lt_size_of_mem_operands hmem
  refine ⟨ExprKind.eq_unwrap_of_bare ?_, fun y hy => ?_⟩
  · rw [← hkind]
    exact congrArg Expr.kind (h.bare_home parent hlt)
  · obtain ⟨s, rfl, hs⟩ := h.exists_of_mem_operands (hforest.inRange parent hlt x hmem) hy
    rw [hforest.eq_of_mem s parent x hs hmem]

end Arena

/-! ### Bodies -/

structure Body.UnwrapsWhereWritten (body : Body) : Prop where
  /--
  A conversion that takes the value out of an optional is the operand of an unwrap
  expression, and no other node and no statement refers to it.
  -/
  nodes : ∀ slot inner op, (body.arena.get slot).kind = .conversion inner op → op.IsUnwrap →
    slot ∉ body.stmts.flatMap Stmt.slots ∧
      ∃ parent, (body.arena.get parent).kind = .unwrap slot ∧
        ∀ other, slot ∈ (body.arena.get other).kind.operands → other = parent
  /-- No adapter takes the value out of an optional, at any depth of adapters. -/
  adapters : ∀ slot inner op, (body.arena.get slot).kind = .conversion inner op →
    ∀ entry, op.Contains entry → ¬ entry.IsUnwrap

/-- Optionality is never given up implicitly in a fresh body that is analysed without errors. -/
theorem unwrapsWhereWritten_of_analysesCleanly (p : Package) (warnDeprecated : Bool)
    (reports : List Report) (definition : Definition) (hp : p.ErrorFree)
    (hf : definition.function < p.functions.length) (hb : definition.body.IsFresh)
    (hclean : p.AnalysesCleanly warnDeprecated reports definition) :
    (p.analyseDefinition warnDeprecated reports definition).1.body.UnwrapsWhereWritten := by
  let a₀ := definition.body.arena
  let body := (p.analyseDefinition warnDeprecated reports definition).1.body
  have he : Environment.ErrorFree
      { package := p, function := p.signature definition.function, warnDeprecated } :=
    ⟨hp, hp.signature hf⟩
  have helaborated := elaboratedFrom_analyseDefinition hp warnDeprecated reports hf hb hclean
  have hforest := hb.isForest
  obtain ⟨home, hrewrites⟩ := helaborated.edits.exists_rewrites
    (Arena.isRegion_reaches_any hb.inRange.arena hforest.roots_lt).lt
  obtain ⟨-, -, n, hpermitted⟩ := hclean.respects hb he.typeInvariant
    (Arena.conversionInvariant_permits _ a₀) (Arena.nodeInvariant_hasPermitted _ _ a₀ _)
    (definition.body.denotes_errorFree _) (fun slot _ inner hinner => Arena.permits_of_unwrap hinner)
    fun slot hlt inner op hkind => absurd ⟨inner, op, hkind⟩ (hb.unconverted slot hlt)
  have hconversion (slot inner : Slot) (op : Conversion)
      (hkind : (body.arena.get slot).kind = .conversion inner op) :
      slot < a₀.size ∧ a₀.Permits slot op := by
    have hlt : slot < a₀.size := by
      by_contra hge
      exact helaborated.plain slot (Nat.le_of_not_lt hge) ⟨inner, op, hkind⟩
    exact ⟨hlt, hpermitted slot hlt inner op hkind⟩
  constructor
  case nodes =>
    intro slot inner op hkind hunwrap
    obtain ⟨hlt, hpermits⟩ := hconversion slot inner op hkind
    obtain ⟨parent, hparent⟩ := hpermits.written hunwrap
    have hmem : slot ∈ (a₀.get parent).kind.operands := by simp [hparent, ExprKind.operands]
    refine ⟨fun hroot => ?_, home parent, hrewrites.unwrap_of_unwrap hforest hparent⟩
    rw [helaborated.slots_eq] at hroot
    exact hforest.root_ne slot hroot parent hmem
  case adapters => exact fun slot inner op hkind => (hconversion slot inner op hkind).2.adapts

def unwrapPackage : Package where
  functions := [
    { name := "main", params := [⟨"a", .optional .int⟩, ⟨"f", .callable [.optional .int] .int⟩]
      ret := .int }]

/-- The body `let g: (Int) -> Int? = f; return a!`, in which `f` is adapted. -/
def adaptedAndUnwrapped : Definition where
  function := 0
  body :=
    let int (start : Nat) := WrittenType.named ⟨start, 3⟩ "Int" []
    { arena := { nodes := #[
        { span := ⟨24, 1⟩, kind := .localRef ⟨"f", ⟨24, 1⟩⟩ none },
        { span := ⟨33, 1⟩, kind := .localRef ⟨"a", ⟨33, 1⟩⟩ none },
        { span := ⟨33, 2⟩, kind := .unwrap 1 }] }
      stmts := [
        .letStmt {
          span := ⟨0, 25⟩, name := ⟨"g", ⟨4, 1⟩⟩, isMutable := false
          type? := some (.callable ⟨7, 13⟩ [int 8] (.optional ⟨16, 4⟩ (int 16)))
          init? := some 0 },
        .ret { span := ⟨26, 9⟩, value? := some 2 }] }

theorem errorFree_unwrapPackage : unwrapPackage.ErrorFree := by
  decide

theorem isFresh_adaptedAndUnwrapped : adaptedAndUnwrapped.body.IsFresh := by
  decide

/-- The callable is adapted, and the value is taken out of the optional. -/
theorem conversions_adaptedAndUnwrapped :
    let arena := (unwrapPackage.analyseDefinition true [] adaptedAndUnwrapped).1.body.arena
    (match (arena.get 0).kind with
      | .conversion _ (.adaptCallable _ _ [some .wrapOptional] (some .wrapOptional)) => true
      | _ => false) = true ∧
    (match (arena.get 1).kind with
      | .conversion _ .unwrapOptional => true
      | _ => false) = true := by
  decide +kernel

theorem unwrapsWhereWritten_adaptedAndUnwrapped :
    unwrapPackage.ErrorFree ∧ adaptedAndUnwrapped.function < unwrapPackage.functions.length ∧
      adaptedAndUnwrapped.body.IsFresh ∧ unwrapPackage.AnalysesCleanly true [] adaptedAndUnwrapped ∧
      let body := (unwrapPackage.analyseDefinition true [] adaptedAndUnwrapped).1.body
      (∃ inner source target args ret,
        (body.arena.get 0).kind = .conversion inner (.adaptCallable source target args ret) ∧
        args = [some .wrapOptional] ∧
        ∀ entry, (Conversion.adaptCallable source target args ret).Contains entry →
          ¬ entry.IsUnwrap) ∧
      ∃ inner parent, (body.arena.get 1).kind = .conversion inner .unwrapOptional ∧
        (body.arena.get parent).kind = .unwrap 1 := by
  have hclean : unwrapPackage.AnalysesCleanly true [] adaptedAndUnwrapped := by decide +kernel
  refine ⟨errorFree_unwrapPackage, by decide, isFresh_adaptedAndUnwrapped, hclean, ?_⟩
  intro body
  have h := unwrapsWhereWritten_of_analysesCleanly unwrapPackage true [] adaptedAndUnwrapped
    errorFree_unwrapPackage (by decide) isFresh_adaptedAndUnwrapped hclean
  obtain ⟨hadapted, hunwrapped⟩ := conversions_adaptedAndUnwrapped
  constructor
  · split at hadapted
    next inner source target hkind =>
      exact ⟨inner, source, target, _, _, hkind, rfl, h.adapters 0 inner _ hkind⟩
    next => cases hadapted
  · split at hunwrapped
    next inner hkind =>
      obtain ⟨-, parent, hparent, -⟩ := h.nodes 1 inner _ hkind (.inl rfl)
      exact ⟨inner, parent, hkind, hparent⟩
    next => cases hunwrapped

end Boxlang
