import Boxlang.Analysis.Package
import Boxlang.Proofs.Invariants.Mentions

/-!
# Types stored in bodies

Types are stored in a body with its nodes, with the conversions between them and in the
conversions of adapters, with calls as their generic arguments, and with bindings.  They
come from what a package declares, so a pervasive property of its types is one of them all
(`Package.Mentions.stores`).

Of storage marks, `inBox` makes no other ones than around a type that has none and is not the
error type.  A type whose marks are all such is thus turned into such types only, and no others
are stored in a body (`Package.storesBoxedOnce_of_analyse`).
-/

namespace Boxlang

namespace Conversion

def types : Conversion → List Ty
  | .box t _ | .boxOptional t | .unbox t | .unboxOptional t => [t]
  | .adaptCallable source target _ _ => [source, target]
  | .rebox _ | .wrapOptional | .unwrapOptional | .unwrapBoxOptional => []

theorem Mentions.types {named : String → Prop} {q : Ty → Prop} {op : Conversion} (h : op.Mentions named q) :
    ∀ t ∈ op.types, q t := by
  cases op with
  | box t protocol => simpa [Conversion.types] using h.1
  | adaptCallable source target args ret => simpa [Conversion.types, Mentions] using h
  | boxOptional t | unbox t | unboxOptional t => simpa [Conversion.types, Mentions] using h
  | rebox _ | wrapOptional | unwrapOptional | unwrapBoxOptional => simp [Conversion.types]

theorem Each.mono {P Q : Conversion → Prop} (hPQ : ∀ op, P op → Q op) {op : Conversion} (h : op.Each P) :
    op.Each Q := by
  induction h with
  | intro hop _ ih => exact .intro (hPQ _ hop) ih

end Conversion

namespace Body

structure Stores (q : Ty → Prop) (body : Body) : Prop where
  nodes : ∀ slot, ∀ t ∈ (body.arena.get slot).type?, q t
  conversions : ∀ slot inner op, (body.arena.get slot).kind = .conversion inner op →
    op.Each fun op => ∀ t ∈ op.types, q t
  arguments : ∀ slot, ∀ arguments ∈ (body.arena.get slot).kind.arguments?,
    ∀ t ∈ arguments.resolved, q t
  bindings : ∀ stmt ∈ body.stmts, ∀ t ∈ stmt.resolved?, q t

/-- A body as analysis gets it: nothing is known yet of the types in it, and nothing is converted. -/
structure IsUntyped (body : Body) : Prop where
  inRange : body.InRange
  untyped : ∀ slot < body.arena.size, (body.arena.get slot).type? = none
  unresolved : ∀ slot < body.arena.size,
    ∀ arguments ∈ (body.arena.get slot).kind.arguments?, arguments.resolved = []
  unconverted : ∀ slot < body.arena.size, ¬ (body.arena.get slot).IsConversion

instance (body : Body) : Decidable body.IsUntyped :=
  decidable_of_iff
    (body.InRange ∧ ∀ slot < body.arena.size, (body.arena.get slot).type? = none ∧
      (∀ arguments ∈ (body.arena.get slot).kind.arguments?, arguments.resolved = []) ∧
      ¬ (body.arena.get slot).IsConversion)
    ⟨fun ⟨hin, h⟩ => ⟨hin, fun slot hs => (h slot hs).1, fun slot hs => (h slot hs).2.1,
        fun slot hs => (h slot hs).2.2⟩,
      fun h => ⟨h.inRange, fun slot hs =>
        ⟨h.untyped slot hs, h.unresolved slot hs, h.unconverted slot hs⟩⟩⟩

theorem IsUntyped.get {body : Body} (h : body.IsUntyped) (slot : Slot) :
    (body.arena.get slot).type? = none ∧ ¬ (body.arena.get slot).IsConversion ∧
      ∀ arguments ∈ (body.arena.get slot).kind.arguments?, arguments.resolved = [] := by
  rcases Nat.lt_or_ge slot body.arena.size with hlt | hge
  · exact ⟨h.untyped slot hlt, h.unconverted slot hlt, h.unresolved slot hlt⟩
  · rw [Arena.get_of_size_le _ hge]
    refine ⟨rfl, ?_, by simp [ExprKind.arguments?]⟩
    rintro ⟨inner, op, hkind⟩
    cases hkind

end Body

/-! ### Analysis -/

section Analysis

variable {named : String → Prop} {q : Ty → Prop} {p : Package}

theorem Package.Mentions.stores (hp : p.Mentions named q) (hq : Ty.Pervasive named q)
    (hstring : named "String") (herror : q .error) (warnDeprecated : Bool) (reports : List Report)
    {definition : Definition} (hb : definition.body.IsUntyped) :
    (p.analyseDefinition warnDeprecated reports definition).1.body.Stores q := by
  obtain ⟨hnodes, hbindings, n, hkept⟩ := hp.respects hq hstring herror warnDeprecated reports hb.inRange
    (by simp [hb.get])
    ((nodeInvariant_conversions q q (K := fun _ => True) _ _ fun _ _ => ⟨trivial, fun _ h => h⟩).and
      (nodeInvariant_resolved q q _ _ _))
    fun slot => ⟨fun _ inner op hkind => absurd ⟨inner, op, hkind⟩ (hb.get slot).2.1,
      fun arguments harguments => by simp [(hb.get slot).2.2 arguments harguments]⟩
  exact {
    nodes := hnodes
    conversions := fun slot inner op hkind =>
      ((hkept slot).1 trivial inner op hkind).mono fun _ h => h.types
    arguments := fun slot => (hkept slot).2
    bindings := hbindings }

/-- What holds of each definition once it is analysed, whatever was reported before, holds of them all. -/
theorem Package.forall_mem_analyse {P : Definition → Prop} {warnDeprecated : Bool}
    {definitions : List Definition} (reports : List Report)
    (h : ∀ definition ∈ definitions, ∀ reports, P (p.analyseDefinition warnDeprecated reports definition).1) :
    ∀ after ∈ (p.analyse warnDeprecated definitions reports).1, P after := by
  induction definitions generalizing reports with
  | nil => exact nofun
  | cons definition rest ih =>
    obtain ⟨hfirst, hrest⟩ := List.forall_mem_cons.mp h
    exact List.forall_mem_cons.mpr ⟨hfirst reports, ih _ hrest⟩

end Analysis

/-! ### Storage marks -/

namespace Ty

/-- The type is no storage mark around another one, and none around the error type. -/
def IsBoxedOnce : Ty → Prop
  | .boxed (.boxed _) | .boxed .error => False
  | _ => True

/-- At no depth does the type have a mark around another one, or around the error type. -/
abbrev BoxesOnce (t : Ty) : Prop :=
  t.Every IsBoxedOnce

theorem BoxesOnce.inBox {t : Ty} (h : t.BoxesOnce) : t.inBox.BoxesOnce := by
  cases t with
  | error | boxed inner => exact h
  | _ => exact ⟨trivial, h⟩

theorem pervasive_boxesOnce : Pervasive (fun _ => True) BoxesOnce := by
  constructor
  case inBox => exact .inBox
  case boxed => exact And.right
  all_goals simp [BoxesOnce, Every, IsBoxedOnce, everyAll_iff]

end Ty

/--
Where no declared type has a mark around another one or around the error type, no type has that is
stored in a body after analysis, whatever was reported.
-/
theorem Package.storesBoxedOnce_of_analyse {p : Package} (hp : p.Mentions (fun _ => True) Ty.BoxesOnce)
    (warnDeprecated : Bool) (reports : List Report) {definitions : List Definition}
    (hb : ∀ definition ∈ definitions, definition.body.IsUntyped) :
    ∀ after ∈ (p.analyse warnDeprecated definitions reports).1, after.body.Stores Ty.BoxesOnce :=
  p.forall_mem_analyse reports fun definition hmem reports =>
    hp.stores Ty.pervasive_boxesOnce trivial trivial warnDeprecated reports (hb definition hmem)

def passPackage : Package where
  functions := [
    { name := "main", params := [⟨"x", .boxed .int⟩] },
    { name := "pass", generics := [{ name := "T" }], params := [⟨"value", .localGeneric 0 "T"⟩]
      ret := .boxed (.localGeneric 0 "T") },
    { name := "adapt", generics := [{ name := "T" }]
      params := [⟨"f", .callable [.localGeneric 0 "T"] (.localGeneric 0 "T")⟩]
      ret := .callable [.localGeneric 0 "T"] (.localGeneric 0 "T") }]

/--
The body `let y = pass(pass(x)); let f = adapt({ (n: Int) -> Int in n }); let z = missing; pass(z)`
of the first one.
-/
def passedAndAdapted : Definition where
  function := 0
  body :=
    let int (start : Nat) := WrittenType.named ⟨start, 3⟩ "Int" []
    { arena := { nodes := #[
        { span := ⟨18, 1⟩, kind := .localRef ⟨"x", ⟨18, 1⟩⟩ none },
        { span := ⟨13, 7⟩, kind := .call ⟨"pass", ⟨13, 4⟩⟩ { span := ⟨17, 3⟩, args := [0] } none },
        { span := ⟨8, 13⟩, kind := .call ⟨"pass", ⟨8, 4⟩⟩ { span := ⟨12, 9⟩, args := [1] } none },
        { span := ⟨58, 1⟩, kind := .localRef ⟨"n", ⟨58, 1⟩⟩ none },
        { span := ⟨37, 23⟩, kind := .closure {
            params := [{ name := ⟨"n", ⟨40, 1⟩⟩, type := int 43 }], ret := int 51, body := 3 } },
        { span := ⟨31, 30⟩, kind := .call ⟨"adapt", ⟨31, 5⟩⟩ { span := ⟨36, 25⟩, args := [4] } none },
        { span := ⟨68, 7⟩, kind := .localRef ⟨"missing", ⟨68, 7⟩⟩ none },
        { span := ⟨82, 1⟩, kind := .localRef ⟨"z", ⟨82, 1⟩⟩ none },
        { span := ⟨77, 7⟩, kind := .call ⟨"pass", ⟨77, 4⟩⟩ { span := ⟨81, 3⟩, args := [7] } none }] }
      stmts := [
        .letStmt {
          span := ⟨0, 21⟩, name := ⟨"y", ⟨4, 1⟩⟩, isMutable := false, type? := none, init? := some 2 },
        .letStmt {
          span := ⟨23, 38⟩, name := ⟨"f", ⟨27, 1⟩⟩, isMutable := false, type? := none, init? := some 5 },
        .letStmt {
          span := ⟨60, 15⟩, name := ⟨"z", ⟨64, 1⟩⟩, isMutable := false, type? := none, init? := some 6 },
        .expr 8] }

theorem mentions_passPackage : passPackage.Mentions (fun _ => True) Ty.BoxesOnce where
  declarations := ⟨Declarations.named_true _, fun e he t ht => by
    simp [passPackage, Declarations.prelude] at he
    simp [he] at ht⟩
  functions f hmem := by
    simp only [passPackage, List.mem_cons, List.not_mem_nil, or_false] at hmem
    rcases hmem with rfl | rfl | rfl <;>
      constructor <;> simp [Ty.BoxesOnce, Ty.Every, Ty.EveryAll, Ty.IsBoxedOnce]

theorem isUntyped_passedAndAdapted : passedAndAdapted.body.IsUntyped := by
  decide

/-- The box of a box is that box, and the box of an error is the error; the closure is adapted to boxes. -/
theorem types_passedAndAdapted :
    let body := (passPackage.analyseDefinition true [] passedAndAdapted).1.body
    body.stmts.map Stmt.resolved? = [some .int, some (.callable [.int] .int), some .error, none] ∧
      (body.arena.get 1).type? = some (.boxed .int) ∧ (body.arena.get 8).type? = some .error ∧
      (match (body.arena.get 4).kind with
        | .conversion _ op => op.types
        | _ => []) = [.callable [.int] .int, .callable [.boxed .int] (.boxed .int)] := by
  decide +kernel

theorem storesBoxedOnce_passedAndAdapted :
    passPackage.Mentions (fun _ => True) Ty.BoxesOnce ∧ passedAndAdapted.body.IsUntyped ∧
      (passPackage.analyse true [passedAndAdapted] []).2 ≠ [] ∧
      ∀ after ∈ (passPackage.analyse true [passedAndAdapted] []).1, after.body.Stores Ty.BoxesOnce ∧
        (after.body.arena.get 1).type? = some (.boxed .int) ∧
        (after.body.arena.get 8).type? = some .error := by
  have hstores := Package.storesBoxedOnce_of_analyse mentions_passPackage true []
    (List.forall_mem_singleton.mpr isUntyped_passedAndAdapted)
  have hreports : (passPackage.analyse true [passedAndAdapted] []).2 ≠ [] := by decide +kernel
  refine ⟨mentions_passPackage, isUntyped_passedAndAdapted, hreports, fun after hafter => ?_⟩
  obtain rfl : after = (passPackage.analyseDefinition true [] passedAndAdapted).1 :=
    List.mem_singleton.mp hafter
  obtain ⟨-, hpassed, herror, -⟩ := types_passedAndAdapted
  exact ⟨hstores _ hafter, hpassed, herror⟩

end Boxlang
