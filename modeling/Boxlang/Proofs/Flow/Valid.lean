import Boxlang.Llvm.Code
import Mathlib.Data.List.Basic
import Mathlib.Data.List.Nodup
import Mathlib.Data.List.Pairwise
import Mathlib.Data.List.Perm.Basic

/-!
# Valid functions

A function is valid if it is a control-flow graph in static single assignment form
(`FunctionDef.IsValid`): no register or label is defined twice, and what is used was
defined on every way there.

Ways through a function are many, so validity is shown from a local condition
(`Draft`): some set of registers is assumed to be defined where a block starts, the
assumption is met where control goes there, and all uses are covered by it.  The
condition also makes sense of a function that is not complete, which owes blocks to
which control already goes.
-/

namespace Boxlang.Llvm

def definedBy (body : List Instr) : List Nat :=
  body.filterMap Instr.dst?

def Block.defs (b : Block) : List Nat :=
  definedBy b.body

def Leads (blocks : List Block) (l l' : Label) : Prop :=
  ∃ b ∈ blocks, b.label = l ∧ l' ∈ b.exit.targets

/--
An operand that has a value: a constant, a declared parameter, or a register for
which `defined` holds.
-/
def Operand.IsAvailable (params : List Operand) (defined : Nat → Prop) : Operand → Prop
  | .register n => defined n
  | .param n => .param n ∈ params
  | .receiver => .receiver ∈ params
  | .context => .context ∈ params
  | .none | .global _ | .null | .undef | .zero | .int _ | .bool _ | .real _ => True

theorem Operand.IsAvailable.mono {params : List Operand} {defined defined' : Nat → Prop}
    {o : Operand} (h : o.IsAvailable params defined) (hle : ∀ n, defined n → defined' n) :
    o.IsAvailable params defined' := by
  cases o with
  | register n => exact hle n h
  | _ => exact h

/-! ### Validity -/

namespace FunctionDef

/-- Control may get to a block through the given ones, the latest first. -/
inductive Path (f : FunctionDef) : Label → List Label → Prop where
  | start {b : Block} : f.blocks.head? = some b → Path f b.label []
  | step {l l' : Label} {before : List Label} : Path f l before → Leads f.blocks l l' →
      Path f l' (l :: before)

/-- Control cannot get to `l'` without having been at `l`. -/
def Dominates (f : FunctionDef) (l l' : Label) : Prop :=
  ∀ before, f.Path l' before → l ∈ l' :: before

def DefinedAfter (f : FunctionDef) (label : Label) (before : List Instr) (n : Nat) : Prop :=
  n ∈ definedBy before ∨
    ∃ b ∈ f.blocks, n ∈ b.defs ∧ b.label ≠ label ∧ f.Dominates b.label label

def DefinedAtEnd (f : FunctionDef) (label : Label) (n : Nat) : Prop :=
  ∃ b ∈ f.blocks, n ∈ b.defs ∧ f.Dominates b.label label

/--
A control-flow graph in static single assignment form.  Blocks have one terminator,
at their end, by construction.
-/
structure IsValid (f : FunctionDef) : Prop where
  entry_eq : f.blocks.head?.map (·.label) = some .entry
  /-- No label is that of two blocks. -/
  labels_nodup : (f.blocks.map (·.label)).Nodup
  /-- Control goes only to blocks that exist. -/
  targets_mem : ∀ b ∈ f.blocks, ∀ l ∈ b.exit.targets, l ∈ f.blocks.map (·.label)
  /-- No register is defined twice. -/
  defs_nodup : (f.blocks.flatMap Block.defs).Nodup
  /-- What an instruction uses is defined before it. -/
  uses : ∀ b ∈ f.blocks, ∀ before i after, b.body = before ++ i :: after → ∀ o ∈ i.uses,
    o.IsAvailable (f.params.map (·.operand)) (f.DefinedAfter b.label before)
  /-- What a terminator uses is defined before it. -/
  exit_uses : ∀ b ∈ f.blocks, ∀ o ∈ b.exit.uses,
    o.IsAvailable (f.params.map (·.operand)) (f.DefinedAtEnd b.label)
  /-- What stands for a predecessor is defined at its end. -/
  incoming_uses : ∀ b ∈ f.blocks, ∀ i ∈ b.body, ∀ e ∈ i.incoming,
    e.1.IsAvailable (f.params.map (·.operand)) (f.DefinedAtEnd e.2)
  /-- There is one operand for each predecessor. -/
  incoming_labels : ∀ b ∈ f.blocks, ∀ dst type incoming, .phi dst type incoming ∈ b.body →
    (incoming.map (·.2)).Nodup ∧ ∀ l, l ∈ incoming.map (·.2) ↔ Leads f.blocks l b.label

end FunctionDef

/-! ### Assumptions about the starts of blocks -/

/-- The registers that are defined at the end of a block, if `start` is right about its start. -/
def AtEnd (start : Label → Nat → Prop) (blocks : List Block) (l : Label) (n : Nat) : Prop :=
  start l n ∨ ∃ b ∈ blocks, b.label = l ∧ n ∈ b.defs

def Instr.PhiOk (params : List Operand) (start : Label → Nat → Prop) (blocks : List Block)
    (label : Label) (i : Instr) : Prop :=
  ∀ dst type incoming, i = .phi dst type incoming →
    (incoming.map (·.2)).Nodup ∧ (∀ l, l ∈ incoming.map (·.2) ↔ Leads blocks l label) ∧
      ∀ e ∈ incoming, e.1.IsAvailable params (AtEnd start blocks e.2)

structure Block.Ok (params : List Operand) (start : Label → Nat → Prop) (blocks : List Block)
    (b : Block) : Prop where
  uses : ∀ before i after, b.body = before ++ i :: after → ∀ o ∈ i.uses,
    o.IsAvailable params fun n => start b.label n ∨ n ∈ definedBy before
  apart : ∀ n ∈ b.defs, ¬ start b.label n
  exit_uses : ∀ o ∈ b.exit.uses, o.IsAvailable params (AtEnd start blocks b.label)
  /-- What is assumed about the blocks that follow is met. -/
  leads : ∀ l ∈ b.exit.targets, ∀ n, start l n → AtEnd start blocks b.label n
  phis : ∀ i ∈ b.body, i.PhiOk params start blocks b.label

/--
The blocks of a function so far, and the labels of blocks that are still owed.  The
registers assumed where a block starts are defined somewhere.
-/
structure Draft (params : List Operand) (start : Label → Nat → Prop) (owed : List Label)
    (blocks : List Block) : Prop where
  entry_eq : blocks.head?.map (·.label) = some .entry
  labels_nodup : (blocks.map (·.label) ++ owed).Nodup
  targets_mem : ∀ b ∈ blocks, ∀ l ∈ b.exit.targets, l ∈ blocks.map (·.label) ++ owed
  defs_nodup : (blocks.flatMap Block.defs).Nodup
  start_entry : ∀ n, ¬ start .entry n
  start_mem : ∀ l n, start l n → l ∈ blocks.map (·.label) ++ owed
  start_defined : ∀ l n, start l n → n ∈ blocks.flatMap Block.defs
  ok : ∀ b ∈ blocks, b.Ok params start blocks

namespace Draft

variable {f : FunctionDef} {params : List Operand} {start : Label → Nat → Prop}
  {owed : List Label} {blocks : List Block}

theorem eq_of_label_eq (h : Draft params start owed blocks) {b b' : Block} (hb : b ∈ blocks)
    (hb' : b' ∈ blocks) (hlabel : b.label = b'.label) : b = b' :=
  List.inj_on_of_nodup_map (List.nodup_append.mp h.labels_nodup).1 hb hb' hlabel

theorem exists_mem_path (h : Draft params start [] f.blocks) {l : Label} {before : List Label}
    (hpath : f.Path l before) {n : Nat} (hn : start l n) :
    ∃ b ∈ f.blocks, b.label ∈ before ∧ n ∈ b.defs := by
  induction hpath with
  | @start b hb =>
    have hentry := h.entry_eq
    rw [hb, Option.map_some, Option.some.injEq] at hentry
    rw [hentry] at hn
    exact absurd hn (h.start_entry n)
  | @step l l' before _ hleads ih =>
    obtain ⟨b, hb, rfl, htarget⟩ := hleads
    rcases (h.ok b hb).leads l' htarget n hn with hstart | ⟨b', hb', hlabel, hdef⟩
    · obtain ⟨b', hb', hmem, hdef⟩ := ih hstart
      exact ⟨b', hb', List.mem_cons_of_mem _ hmem, hdef⟩
    · exact ⟨b', hb', hlabel ▸ List.mem_cons_self, hdef⟩

/-- The register has one definition, so that one was met on every way. -/
theorem exists_dominates (h : Draft params start [] f.blocks) {l : Label} {n : Nat}
    (hn : start l n) :
    ∃ b ∈ f.blocks, n ∈ b.defs ∧ ∀ before, f.Path l before → b.label ∈ before := by
  obtain ⟨b, hb, hdef⟩ := List.mem_flatMap.mp (h.start_defined l n hn)
  refine ⟨b, hb, hdef, fun before hpath => ?_⟩
  obtain ⟨b', hb', hmem, hdef'⟩ := h.exists_mem_path hpath hn
  have hapart := (List.nodup_flatMap.mp h.defs_nodup).2
  have : Std.Symm (Function.onFun List.Disjoint Block.defs) := ⟨fun _ _ hdisj _ h h' => hdisj h' h⟩
  obtain rfl : b' = b := by
    by_contra hne
    exact hapart.forall hb' hb hne hdef' hdef
  exact hmem

theorem definedAtEnd (h : Draft params start [] f.blocks) {l : Label} {n : Nat}
    (hn : AtEnd start f.blocks l n) : f.DefinedAtEnd l n := by
  rcases hn with hstart | ⟨b, hb, rfl, hdef⟩
  · obtain ⟨b, hb, hdef, hpath⟩ := h.exists_dominates hstart
    exact ⟨b, hb, hdef, fun before hbefore => List.mem_cons_of_mem _ (hpath before hbefore)⟩
  · exact ⟨b, hb, hdef, fun _ _ => List.mem_cons_self⟩

theorem definedAfter (h : Draft params start [] f.blocks) {b : Block} (hb : b ∈ f.blocks)
    {before : List Instr} {n : Nat} (hn : start b.label n ∨ n ∈ definedBy before) :
    f.DefinedAfter b.label before n := by
  rcases hn with hstart | hdef
  · obtain ⟨b', hb', hdef, hpath⟩ := h.exists_dominates hstart
    refine .inr ⟨b', hb', hdef, fun hlabel => ?_, fun before hbefore =>
      List.mem_cons_of_mem _ (hpath before hbefore)⟩
    obtain rfl := h.eq_of_label_eq hb' hb hlabel
    exact (h.ok b' hb).apart n hdef hstart
  · exact .inl hdef

theorem isValid (h : Draft (f.params.map (·.operand)) start [] f.blocks) : f.IsValid where
  entry_eq := h.entry_eq
  labels_nodup := (List.nodup_append.mp h.labels_nodup).1
  targets_mem b hb l hl := by simpa using h.targets_mem b hb l hl
  defs_nodup := h.defs_nodup
  uses b hb before i after hbody o ho :=
    ((h.ok b hb).uses before i after hbody o ho).mono fun _ => h.definedAfter hb
  exit_uses b hb o ho := ((h.ok b hb).exit_uses o ho).mono fun _ => h.definedAtEnd
  incoming_uses b hb i hi e he := by
    cases i with
    | phi dst type incoming =>
      exact (((h.ok b hb).phis _ hi dst type incoming rfl).2.2 e he).mono fun _ => h.definedAtEnd
    | _ => cases he
  incoming_labels b hb dst type incoming hi := by
    obtain ⟨hnodup, hlabels, -⟩ := (h.ok b hb).phis _ hi dst type incoming rfl
    exact ⟨hnodup, hlabels⟩

end Draft

end Boxlang.Llvm
