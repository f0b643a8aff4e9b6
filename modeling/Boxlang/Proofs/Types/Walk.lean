import Boxlang.Inference
import Boxlang.Proofs.Types.Substitution
import Mathlib.Data.List.Basic
import Mathlib.Data.List.Flatten

/-!
# Walking two types side by side

Candidates for generic arguments are found on a walk over a declared and an actual type
(`Ty.walk`), which stops where the declared type has a variable.  The candidates that a
walk adds are those it finds at the own variables of the callee
(`Candidates.collect_eq_addFound`).

Where the variables of the owner are replaced first, the walk goes on through what
stands for them (`Ty.walk_subst`).  It finds the same candidates exactly if it finds none
there (`Ty.found_subst_eq_iff`).
-/

namespace Boxlang

namespace Ty

/-! ### Parts -/

/-- The parts of two types that stand side by side, in the order in which they are walked. -/
def pairedParts : Ty → Ty → List (Ty × Ty)
  | .optional x, .optional y | .optional x, y | .typeValue x, .typeValue y => [(x, y)]
  | .object n xs, .object m ys | .object n xs, .value m ys
  | .value n xs, .object m ys | .value n xs, .value m ys =>
    if n = m ∧ xs.length = ys.length then xs.zip ys else []
  | .callable params ret, .callable params' ret' =>
    if params.length = params'.length then params.zip params' ++ [(ret, ret')] else []
  | _, _ => []

/-- An optional is walked along its content only, with the content of the other side if that is one. -/
theorem pairedParts_optional {x u : Ty} (h : ∀ y, u ≠ .optional y) : pairedParts (.optional x) u = [(x, u)] := by
  cases u with
  | optional y => exact (h y rfl).elim
  | _ => rfl

theorem size_le_of_mem_zip {xs ys : List Ty} {q : Ty × Ty} (h : q ∈ xs.zip ys) :
    q.1.size ≤ sizeAll xs :=
  size_le_of_mem (List.of_mem_zip h).1

theorem size_lt_of_mem_pairedParts {t u : Ty} {q : Ty × Ty} (h : q ∈ pairedParts t u) : q.1.size < t.size := by
  unfold pairedParts at h
  split at h
  case h_1 | h_2 | h_3 =>
    obtain rfl := List.mem_singleton.mp h
    simp only [size]
    omega
  case h_4 | h_5 | h_6 | h_7 =>
    split at h
    · have := size_le_of_mem_zip h
      simp only [size]
      omega
    · cases h
  case h_8 =>
    split at h
    · rcases List.mem_append.mp h with h | h
      · have := size_le_of_mem_zip h
        simp only [size]
        omega
      · obtain rfl := List.mem_singleton.mp h
        simp only [size]
        omega
    · cases h
  case h_9 => cases h

/-- The variables of `declared` that are met on the walk, each with what stands there in `actual`. -/
def walk (declared actual : Ty) : List (Ty × Ty) :=
  match _h : declared.unboxed with
  | .localGeneric i n => [(.localGeneric i n, actual)]
  | .generic i n => [(.generic i n, actual)]
  | t => (pairedParts t actual.unboxed).attach.flatMap fun q => walk q.1.1 q.1.2
termination_by declared.size
decreasing_by
  have hlt := size_lt_of_mem_pairedParts q.2
  have hle := size_unboxed_le declared
  rw [_h] at hle
  omega

def IsVariable : Ty → Prop
  | .generic _ _ | .localGeneric _ _ => True
  | _ => False

theorem walk_of_isVariable {declared : Ty} (h : declared.unboxed.IsVariable) (actual : Ty) :
    walk declared actual = [(declared.unboxed, actual)] := by
  rw [walk]
  split
  next hu => rw [hu]
  next hu => rw [hu]
  next hlocal hgeneric =>
    cases hu : declared.unboxed with
    | localGeneric i n => exact (hlocal i n hu).elim
    | generic i n => exact (hgeneric i n hu).elim
    | _ => exact (hu ▸ h).elim

theorem walk_generic (i : Nat) (n : String) (actual : Ty) :
    walk (.generic i n) actual = [(.generic i n, actual)] :=
  walk_of_isVariable (show (Ty.generic i n).unboxed.IsVariable from trivial) actual

theorem walk_localGeneric (i : Nat) (n : String) (actual : Ty) :
    walk (.localGeneric i n) actual = [(.localGeneric i n, actual)] :=
  walk_of_isVariable (show (Ty.localGeneric i n).unboxed.IsVariable from trivial) actual

theorem walk_of_not_isVariable {declared : Ty} (h : ¬ declared.unboxed.IsVariable) (actual : Ty) :
    walk declared actual = (pairedParts declared.unboxed actual.unboxed).flatMap fun q => walk q.1 q.2 := by
  rw [walk]
  split
  next hu => exact (h (hu ▸ trivial)).elim
  next hu => exact (h (hu ▸ trivial)).elim
  next =>
    rw [List.flatMap_subtype (g := fun q => walk q.1 q.2) fun _ _ => rfl, List.unattach_attach]

theorem walk_congr {t u : Ty} (h : t.unboxed = u.unboxed) (actual : Ty) : walk t actual = walk u actual := by
  by_cases hv : u.unboxed.IsVariable
  · rw [walk_of_isVariable hv, walk_of_isVariable (h ▸ hv), h]
  · rw [walk_of_not_isVariable hv, walk_of_not_isVariable (h ▸ hv), h]

theorem unboxed_inBox (t : Ty) : t.inBox.unboxed = t.unboxed := by
  cases t <;> rfl

theorem walk_inBox (t actual : Ty) : walk t.inBox actual = walk t actual :=
  walk_congr t.unboxed_inBox actual

def IsMarkedOnce : Ty → Prop
  | .boxed (.boxed _) => False
  | _ => True

theorem not_boxed_of_isMarkedOnce {t u : Ty} (h : t.IsMarkedOnce) : t.unboxed ≠ .boxed u := by
  cases t with
  | boxed inner => cases inner <;> first | exact h.elim | nofun
  | _ => nofun

theorem unboxed_subst (owner locals : Nat → Option Ty) (t : Ty) :
    (t.unboxed.subst owner locals).unboxed = (t.subst owner locals).unboxed := by
  cases t with
  | boxed inner => exact (unboxed_inBox _).symm
  | _ => rfl

theorem shape_subst (owner locals : Nat → Option Ty) {t : Ty} (hv : ¬ t.IsVariable) (hb : ∀ u, t ≠ .boxed u) :
    (t.subst owner locals).unboxed = t.subst owner locals ∧ ¬ (t.subst owner locals).IsVariable := by
  cases t with
  | generic | localGeneric => exact (hv trivial).elim
  | boxed u => exact (hb u rfl).elim
  | _ => exact ⟨rfl, id⟩

theorem pairedParts_subst {owner locals : Nat → Option Ty} {t : Ty} (hv : ¬ t.IsVariable)
    (hb : ∀ u, t ≠ .boxed u) (actual : Ty) : pairedParts (t.subst owner locals) actual =
      (pairedParts t actual).map fun q => (q.1.subst owner locals, q.2) := by
  cases t with
  | generic | localGeneric => exact (hv trivial).elim
  | boxed u => exact (hb u rfl).elim
  | object | value | callable =>
      cases actual <;> simp only [subst, pairedParts, substAll_eq_map, List.length_map, List.map_nil]
      all_goals
        split <;> simp [List.zip_map_left, Prod.map]
  | _ => cases actual <;> rfl

theorem Every.unboxed {p : Ty → Prop} {t : Ty} (h : t.Every p) : t.unboxed.Every p := by
  cases t with
  | boxed inner => exact h.2
  | _ => exact h

theorem Every.of_mem_pairedParts {p : Ty → Prop} {t u : Ty} (h : t.Every p) {q : Ty × Ty} (hq : q ∈ pairedParts t u) :
    q.1.Every p := by
  unfold pairedParts at hq
  split at hq
  case h_1 | h_2 | h_3 =>
    obtain rfl := List.mem_singleton.mp hq
    exact h.2
  case h_4 | h_5 | h_6 | h_7 =>
    split at hq
    · exact everyAll_iff.mp h.2 _ (List.of_mem_zip hq).1
    · cases hq
  case h_8 =>
    split at hq
    · rcases List.mem_append.mp hq with hq | hq
      · exact everyAll_iff.mp h.2.1 _ (List.of_mem_zip hq).1
      · obtain rfl := List.mem_singleton.mp hq
        exact h.2.2
    · cases hq
  case h_9 => cases hq

/-- A variable that was met, or what is met on a walk over what the owner's variable stands for. -/
def resume (owner : Nat → Option Ty) (q : Ty × Ty) : List (Ty × Ty) :=
  match q.1 with
  | .generic i _ =>
    match owner i with
    | some a => walk a q.2
    | none => [q]
  | _ => [q]

/-- Where the variables of the owner are replaced first, the walk goes on from them. -/
theorem walk_subst (owner : Nat → Option Ty) (declared actual : Ty) (h : declared.Every IsMarkedOnce) :
    walk (declared.subst owner fun _ => none) actual = (walk declared actual).flatMap (resume owner) := by
  have hnext : (declared.unboxed.subst owner fun _ => none).unboxed =
      (declared.subst owner fun _ => none).unboxed := unboxed_subst owner _ declared
  rw [← walk_congr hnext]
  by_cases hv : declared.unboxed.IsVariable
  · rw [walk_of_isVariable hv]
    cases hu : declared.unboxed with
    | generic i n =>
        cases ha : owner i with
        | some a => simp [subst, resume, ha]
        | none => simp [subst, resume, ha, walk_generic]
    | localGeneric i n =>
        simp [subst, resume, walk_localGeneric]
    | _ => exact (hu ▸ hv).elim
  · have hb := fun u => not_boxed_of_isMarkedOnce (u := u) h.self
    obtain ⟨hshape, hv'⟩ := shape_subst owner (fun _ => none) hv hb
    rw [walk_of_not_isVariable (by rwa [hshape]), walk_of_not_isVariable hv, hshape, pairedParts_subst hv hb,
      List.flatMap_map, List.flatMap_assoc]
    refine List.flatMap_congr fun q hq => ?_
    exact walk_subst owner q.1 q.2 (h.unboxed.of_mem_pairedParts hq)
termination_by declared.size
decreasing_by
  have hlt := size_lt_of_mem_pairedParts hq
  have hle := size_unboxed_le declared
  omega

/-! ### Candidates -/

def ownVariable? (q : Ty × Ty) : Option (Nat × Ty) :=
  match q.1 with
  | .localGeneric i _ => some (i, q.2)
  | _ => none

/-- The candidates that stand in `actual` where `declared` has own variables of the callee. -/
def found (declared actual : Ty) : List (Nat × Ty) :=
  (walk declared actual).filterMap ownVariable?

/-- What was met is an own variable of the callee, or what it is replaced by adds no candidates. -/
def AddsNothing (owner : Nat → Option Ty) (q : Ty × Ty) : Prop :=
  ∀ i n a, q.1 = .generic i n → owner i = some a → found a q.2 = []

theorem toList_ownVariable?_sublist (owner : Nat → Option Ty) (q : Ty × Ty) :
    (ownVariable? q).toList.Sublist ((resume owner q).filterMap ownVariable?) := by
  rcases q with ⟨v, t⟩
  cases v with
  | generic i n => exact List.nil_sublist _
  | _ => exact .refl _

theorem filterMap_resume_eq_iff (owner : Nat → Option Ty) (q : Ty × Ty) :
    (resume owner q).filterMap ownVariable? = (ownVariable? q).toList ↔ AddsNothing owner q := by
  rcases q with ⟨v, t⟩
  cases v with
  | generic i n =>
      cases ha : owner i with
      | some a =>
          have hresume : resume owner (.generic i n, t) = walk a t := by simp only [resume, ha]
          rw [hresume]
          refine ⟨fun h j m b hq hb => ?_, fun h => h i n a rfl ha⟩
          obtain ⟨rfl, rfl⟩ := Ty.generic.inj hq
          obtain rfl : a = b := Option.some.inj (ha.symm.trans hb)
          exact h
      | none =>
          refine ⟨fun _ j m b hq hb => ?_, fun _ => by simp [resume, ha, ownVariable?]⟩
          obtain ⟨rfl, rfl⟩ := Ty.generic.inj hq
          cases ha.symm.trans hb
  | _ => simp [resume, ownVariable?, AddsNothing]

/-- If each part contains another, the whole is the same exactly if all parts are. -/
theorem flatMap_eq_flatMap_iff {α β : Type} {f g : α → List β} {l : List α} (h : ∀ a ∈ l, (g a).Sublist (f a)) :
    l.flatMap f = l.flatMap g ↔ ∀ a ∈ l, f a = g a := by
  refine ⟨fun heq => ?_, List.flatMap_congr⟩
  induction l with
  | nil => simp
  | cons a l ih =>
      obtain ⟨ha, hl⟩ := List.forall_mem_cons.mp h
      have hrest := List.Sublist.flatMap_right l hl
      have hlen := congrArg List.length heq
      simp only [List.flatMap_cons, List.length_append] at hlen
      have hle := ha.length_le
      have hle' := hrest.length_le
      have hfirst : f a = g a := (ha.eq_of_length (by omega)).symm
      simp only [List.flatMap_cons, hfirst, List.append_cancel_left_eq] at heq
      exact List.forall_mem_cons.mpr ⟨hfirst, ih hl heq⟩

/-- The same candidates are found in an instance exactly if what replaces the variables adds none. -/
theorem found_subst_eq_iff (owner : Nat → Option Ty) {declared : Ty} (actual : Ty)
    (h : declared.Every IsMarkedOnce) :
    found (declared.subst owner fun _ => none) actual = found declared actual ↔
      ∀ q ∈ walk declared actual, AddsNothing owner q := by
  rw [found, walk_subst owner declared actual h, List.filterMap_flatMap, found,
    List.filterMap_eq_flatMap_toList, flatMap_eq_flatMap_iff fun q _ => toList_ownVariable?_sublist owner q]
  exact forall₂_congr fun q _ => filterMap_resume_eq_iff owner q

theorem found_sublist_found_subst (owner : Nat → Option Ty) {declared : Ty} (actual : Ty)
    (h : declared.Every IsMarkedOnce) :
    (found declared actual).Sublist (found (declared.subst owner fun _ => none) actual) := by
  rw [found, List.filterMap_eq_flatMap_toList, found, walk_subst owner declared actual h, List.filterMap_flatMap]
  exact List.Sublist.flatMap_right _ fun q _ => toList_ownVariable?_sublist owner q

theorem addsNothing_map_inBox_iff {owner : Nat → Option Ty} {q : Ty × Ty} :
    AddsNothing (fun i => (owner i).map inBox) q ↔ AddsNothing owner q := by
  constructor
  · intro h i n a hq ha
    rw [found, ← walk_inBox]
    exact h i n a.inBox hq (by simp [ha])
  · intro h i n a hq ha
    obtain ⟨b, hb, rfl⟩ := Option.map_eq_some_iff.mp ha
    rw [found, walk_inBox]
    exact h i n b hq hb

def IsNoLocal : Ty → Prop
  | .localGeneric _ _ => False
  | _ => True

mutual

theorem every_isNoLocal : ∀ t : Ty, t.mentionsLocalGenerics = false → t.Every IsNoLocal
  | .object _ args, h | .value _ args, h => ⟨trivial, everyAll_isNoLocal args h⟩
  | .callable params ret, h => by
      obtain ⟨hparams, hret⟩ := Bool.or_eq_false_iff.mp h
      exact ⟨trivial, everyAll_isNoLocal params hparams, every_isNoLocal ret hret⟩
  | .optional inner, h | .typeValue inner, h | .boxed inner, h => ⟨trivial, every_isNoLocal inner h⟩
  | .error, _ | .nothing, _ | .int, _ | .real, _ | .bool, _ | .byte, _ | .symbol, _ => trivial
  | .something, _ | .enum _, _ | .protocol _, _ | .generic _ _, _ => trivial

theorem everyAll_isNoLocal : ∀ ts : List Ty, anyMentionsLocalGenerics ts = false → EveryAll IsNoLocal ts
  | [], _ => trivial
  | t :: ts, h => by
      obtain ⟨ht, hts⟩ := Bool.or_eq_false_iff.mp h
      exact ⟨every_isNoLocal t ht, everyAll_isNoLocal ts hts⟩

end

theorem walk_every {p : Ty → Prop} (declared actual : Ty) (h : declared.Every p) :
    ∀ q ∈ walk declared actual, p q.1 := by
  intro q hq
  by_cases hv : declared.unboxed.IsVariable
  · rw [walk_of_isVariable hv] at hq
    obtain rfl := List.mem_singleton.mp hq
    exact h.unboxed.self
  · rw [walk_of_not_isVariable hv] at hq
    obtain ⟨part, hpart, hq⟩ := List.mem_flatMap.mp hq
    exact walk_every part.1 part.2 (h.unboxed.of_mem_pairedParts hpart) q hq
termination_by declared.size
decreasing_by
  have hlt := size_lt_of_mem_pairedParts hpart
  have hle := size_unboxed_le declared
  omega

/-- A type without own variables of the callee has no candidates for them. -/
theorem found_eq_nil {declared : Ty} (h : declared.mentionsLocalGenerics = false) (actual : Ty) :
    found declared actual = [] := by
  refine List.filterMap_eq_nil_iff.mpr fun q hq => ?_
  have hno := walk_every declared actual (every_isNoLocal declared h) q hq
  rcases q with ⟨v, t⟩
  cases v with
  | localGeneric i n => exact hno.elim
  | _ => rfl

end Ty

namespace Candidates

variable (d : Declarations) (c : GenericContext)

def addFound (found : List (Nat × Ty)) (all : List Candidates) : List Candidates :=
  found.foldl (fun all q => all.modify q.1 (·.add d c q.2)) all

theorem add_unboxed (candidates : Candidates) (t : Ty) : candidates.add d c t.unboxed = candidates.add d c t := by
  cases candidates <;> simp only [add, Ty.erased_unboxed]

theorem addFound_append (xs ys : List (Nat × Ty)) (all : List Candidates) :
    addFound d c (xs ++ ys) all = addFound d c ys (addFound d c xs all) :=
  List.foldl_append

theorem addFound_flatMap {α : Type} (f : α → List (Nat × Ty)) (l : List α) (all : List Candidates) :
    addFound d c (l.flatMap f) all = l.foldl (fun all a => addFound d c (f a) all) all := by
  induction l generalizing all with
  | nil => rfl
  | cons a l ih => rw [List.flatMap_cons, addFound_append, ih, List.foldl_cons]

theorem found_of_not_isVariable {declared : Ty} (h : ¬ declared.unboxed.IsVariable) (actual : Ty) :
    Ty.found declared actual =
      (Ty.pairedParts declared.unboxed actual.unboxed).flatMap fun q => Ty.found q.1 q.2 := by
  rw [Ty.found, Ty.walk_of_not_isVariable h, List.filterMap_flatMap]
  rfl

mutual

theorem collect_eq_addFound (declared actual : Ty) (all : List Candidates) :
    collect d c declared actual all = addFound d c (Ty.found declared actual) all := by
  rw [collect]
  split
  case h_1 i n hx =>
    have hv : declared.unboxed.IsVariable := hx ▸ trivial
    simp [Ty.found, Ty.walk_of_isVariable hv, hx, Ty.ownVariable?, addFound, add_unboxed]
  case h_2 x y hx hy =>
    rw [found_of_not_isVariable (hx ▸ id), hx, hy, collect_eq_addFound x y, Ty.pairedParts,
      List.flatMap_singleton]
  case h_3 y x hx hy =>
    rw [found_of_not_isVariable (hx ▸ id), hx, collect_eq_addFound x, Ty.pairedParts_optional hy,
      List.flatMap_singleton]
  case h_4 n xs m ys hx hy | h_5 n xs m ys hx hy | h_6 n xs m ys hx hy | h_7 n xs m ys hx hy =>
    rw [found_of_not_isVariable (hx ▸ id), hx, hy, collectAll_eq_addFound xs ys, Ty.pairedParts]
    split <;> rfl
  case h_8 params ret params' ret' hx hy =>
    rw [found_of_not_isVariable (hx ▸ id), hx, hy, collectAll_eq_addFound params params',
      collect_eq_addFound ret ret', Ty.pairedParts]
    split
    · rw [List.flatMap_append, addFound_append, List.flatMap_singleton]
    · rfl
  case h_9 x y hx hy =>
    rw [found_of_not_isVariable (hx ▸ id), hx, hy, collect_eq_addFound x y, Ty.pairedParts,
      List.flatMap_singleton]
  case h_10 hlocal _ _ _ _ _ _ _ _ =>
    by_cases hv : declared.unboxed.IsVariable
    · rw [Ty.found, Ty.walk_of_isVariable hv]
      cases hu : declared.unboxed with
      | localGeneric i n => exact (hlocal i n hu).elim
      | generic i n => rfl
      | _ => exact (hu ▸ hv).elim
    · rw [found_of_not_isVariable hv, Ty.pairedParts]
      · rfl
      all_goals assumption
termination_by 2 * declared.size
decreasing_by
  all_goals
    have hle := Ty.size_unboxed_le declared
    simp only [‹declared.unboxed = _›, Ty.size] at hle
    omega

theorem collectAll_eq_addFound (declared actual : List Ty) (all : List Candidates) :
    collectAll d c declared actual all =
      addFound d c ((declared.zip actual).flatMap fun q => Ty.found q.1 q.2) all := by
  match declared, actual with
  | x :: xs, y :: ys =>
      rw [collectAll, collect_eq_addFound x y, collectAll_eq_addFound xs ys, List.zip_cons_cons,
        List.flatMap_cons, addFound_append]
  | [], _ => simp [collectAll, addFound]
  | _ :: _, [] => simp [collectAll, addFound]
termination_by 2 * Ty.sizeAll declared + 1
decreasing_by
  all_goals
    have := Ty.size_pos x
    simp only [Ty.sizeAll]
    omega

end

end Candidates

end Boxlang
