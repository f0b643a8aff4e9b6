import Boxlang.Proofs.Conversion.Mentions
import Boxlang.Proofs.Invariants.Statement

/-!
# What analysed bodies mention

All types that analysis gives to the nodes and bindings of a body, and all types and
protocols in the conversions that it puts between them, come from what the package declares.
A pervasive property of the package is one of them all, also where something is wrong in the
body.
-/

namespace Boxlang

open Conversion

/-- The declared types and the types of functions have the property. -/
structure Package.Mentions (named : String → Prop) (q : Ty → Prop) (p : Package) : Prop where
  declarations : p.declarations.Mentions named q
  functions : ∀ f ∈ p.functions, f.Mentions named q

theorem Package.Mentions.signature {named : String → Prop} {q : Ty → Prop} {p : Package}
    (h : p.Mentions named q) {id : FunctionId} (hid : id < p.functions.length) :
    (p.signature id).Mentions named q :=
  h.functions _ (p.signature_mem hid)

theorem Package.Mentions.signature_of_pervasive {named : String → Prop} {q : Ty → Prop} {p : Package}
    (h : p.Mentions named q) (hq : Ty.Pervasive named q) (id : FunctionId) :
    (p.signature id).Mentions named q := by
  rcases Nat.lt_or_ge id p.functions.length with hlt | hge
  · exact h.signature hlt
  · have hdefault : p.signature id = default := by
      simp [Package.signature, List.getD_eq_getElem?_getD, hge]
    rw [hdefault]
    exact {
      generics := List.forall_mem_nil _
      constraints := List.forall_mem_nil _
      owner := fun _ ht => absurd ht (Option.not_mem_none _)
      params := List.forall_mem_nil _
      ret := hq.atom .nothing (by simp) }

section Analysis

variable {named : String → Prop} {q : Ty → Prop} (hq : Ty.Pervasive named q) {env : Environment}
include hq

theorem Signature.Mentions.calleeContext {target : Signature} (h : target.Mentions named q)
    {receiver? : Option Ty} (hreceiver : ∀ t ∈ receiver?, q t) :
    (env.calleeContext receiver? target).AllTypes q := by
  have hc := h.context hq env.declarations
  cases receiver? with
  | none => exact hc
  | some t => exact { hc with owner := hreceiver }

/-- A pervasive property of the package and the function is kept by all that analysis does with types. -/
theorem Ty.Pervasive.typeInvariant (hp : env.package.Mentions named q)
    (hf : env.function.Mentions named q) (hstring : named "String") : TypeInvariant env q q where
  weaken ht := ht
  literal t ht := by
    have hatom := hq.atom t
    simp only [List.mem_cons, List.not_mem_nil, or_false] at ht hatom
    rcases ht with rfl | rfl | rfl | rfl | rfl
    case inr.inr.inr.inl => exact hq.object.mpr ⟨hstring, by simp⟩
    all_goals exact hatom (by simp)
  owner ht := hf.owner _ ht
  param := hf.params
  ret := hf.ret
  erased := hq.erased
  error ht herror := hq.of_unboxed ht herror
  heldIn s ht _ := hq.heldIn s ht
  typeValue ht _ := hq.typeValue.mpr ht
  denoted ht hu := hq.typeValue.mp (hq.of_unboxed ht hu)
  callable ht hu := hq.callable.mp (hq.of_unboxed ht hu)
  closure hparams hret := hq.callable.mpr ⟨hparams, hret⟩
  value ht hu :=
    have hv := hq.of_optionalInner? ht hu
    ⟨hv, hq.heldIn .box hv⟩
  comply {e t u} _ ht he hu := by
    have h := mentions_compliance hq ht he
    cases hc : e.compliance t with
    | asIs t' =>
      rw [hc] at h hu
      cases hu
      exact h
    | convert op t' =>
      rw [hc] at h hu
      cases hu
      exact h.1
    | refused =>
      rw [hc] at hu
      cases hu
  collect declared actual all ha hall :=
    Candidates.forall_mem_collect hq.descends
      (fun _ _ hc ht => Candidates.yields_add_of_pervasive hq hp.declarations hc ht)
      declared actual all ha hall
  argument _ _ _ ht _ := ht
  receiver ht _ :=
    (hf.context hq env.declarations).upperBound hq (hq.erased ht)
  instantiate {id receiver? types} hid hreceiver htypes := by
    have hte := hp.signature hid
    have hce : ({ env.calleeContext receiver? (env.package.signature id) with
        args := types } : GenericContext).AllTypes q :=
      { hte.calleeContext hq hreceiver with args := htypes }
    exact ⟨fun param hparam => hce.instantiate hq (hte.params param hparam),
      hce.instantiate hq hte.ret⟩

theorem Ty.Pervasive.conversionInvariant :
    ConversionInvariant env q fun _ op => op.Each (Conversion.Mentions named q) := by
  intro slot e t op u _ ht he h
  have hc := mentions_compliance hq ht he
  rw [h] at hc
  exact hc.2

omit env in
theorem Body.denotes_of_mentions (body : Body) (env : Environment)
    (hp : env.package.Mentions named q) (hf : env.function.Mentions named q) :
    body.Denotes env q q where
  types _ _ w _ := Signature.of_resolve hq hp.declarations.toNamed hf.generics w
  results _ _ w _ := Signature.of_resolve hq hp.declarations.toNamed hf.generics w
  stmts _ _ w _ := Signature.of_resolve hq hp.declarations.toNamed hf.generics w

end Analysis

structure Arena.Mentions (named : String → Prop) (q : Ty → Prop) (a : Arena) : Prop where
  types : ∀ slot t, (a.get slot).type? = some t → q t
  conversions : ∀ slot inner op, (a.get slot).kind = .conversion inner op →
    op.Each (Conversion.Mentions named q)

theorem Body.IsFresh.mentions {named : String → Prop} {q : Ty → Prop} {body : Body} (hb : body.IsFresh) :
    body.arena.Mentions named q where
  types slot t ht := by simp [hb.type?_eq_none] at ht
  conversions slot inner op hkind := absurd ⟨inner, op, hkind⟩ (hb.not_isConversion slot)

section Bodies

variable {named : String → Prop} {q : Ty → Prop} {p : Package} (hp : p.Mentions named q)
  (hq : Ty.Pervasive named q) (hstring : named "String") (herror : q .error) (warnDeprecated : Bool)
  (reports : List Report) {definition : Definition}
include hp hq hstring herror

/--
The nodes and bindings of a body have types with the property, and the nodes properties that are
kept by conversions that mention nothing else, whatever was reported.
-/
theorem Package.Mentions.respects (hin : definition.body.InRange)
    (htypes : ∀ slot t, (definition.body.arena.get slot).type? = some t → q t)
    {N : Nat → Slot → Expr → Prop} :
    let arena := definition.body.arena
    let after := (p.analyseDefinition warnDeprecated reports definition).1.body
    let count := (Scope.ofSignature (p.signature definition.function)).count
    NodeInvariant q q (fun _ op => op.Each (Conversion.Mentions named q)) arena count N →
      (∀ slot, N count slot (arena.get slot)) →
      (∀ slot t, (after.arena.get slot).type? = some t → q t) ∧
        (∀ stmt ∈ after.stmts, ∀ t ∈ stmt.resolved?, q t) ∧
        ∃ n, ∀ slot, N n slot (after.arena.get slot) := by
  intro arena after count hN hkept
  have hsignature := hp.signature_of_pervasive hq definition.function
  exact p.respects_analyseDefinition warnDeprecated reports definition hin htypes herror
    (hq.typeInvariant hp hsignature hstring) hq.conversionInvariant hN
    (definition.body.denotes_of_mentions hq _ hp hsignature)
    (fun _ _ _ _ => ⟨.of_entries_eq_nil trivial rfl, .of_entries_eq_nil trivial rfl⟩) hkept

/-- Analysis adds nothing to what the nodes of a body mention but what the package mentions. -/
theorem Package.Mentions.arena (hin : definition.body.InRange)
    (hbefore : definition.body.arena.Mentions named q) :
    (p.analyseDefinition warnDeprecated reports definition).1.body.arena.Mentions named q := by
  obtain ⟨htypes, -, n, hconversions⟩ := hp.respects hq hstring herror warnDeprecated reports hin
    hbefore.types
    (nodeInvariant_conversions q q (K := fun _ => True) _ _ fun _ _ => ⟨trivial, fun _ h => h⟩)
    fun slot _ => hbefore.conversions slot
  exact ⟨htypes, fun slot => hconversions slot trivial⟩

end Bodies

end Boxlang
