import Boxlang.Proofs.Analysis.Scope
import Mathlib.Data.List.Induction

/-!
# Well-nested runs of scopes

A run is a list of steps, each of which opens or closes a scope or a closure, declares a
variable or reads a name (`ScopeStep`).  Between an opening step and the step that closes it
stand well-nested steps (`WellNested`).  What such steps leave behind in the scopes around
them is said exactly in `Scope.exists_leadsTo`: new variables in the innermost scope, and reads
that every open closure has noted.  From this follow the laws of all runs
(`run_laws`): closing gives every name its meaning back, and a closure captures what was
read inside of it and declared outside.
-/

namespace Boxlang

inductive ScopeStep where
  | push
  | pop
  | enterClosure
  | exitClosure
  | declare (name : String) (type : Ty) (isMutable : Bool)
  | lookup (name : String)
  | resolve (name : String)
  deriving DecidableEq

inductive ScopeAnswer where
  | done
  | declared (id : Nat)
  | meaning (binding? : Option Binding)
  | resolved (binding? : Option Binding)
  | captured (ids : List Nat)
  deriving DecidableEq

namespace ScopeAnswer

def declaredIds (answers : List ScopeAnswer) : List Nat :=
  answers.filterMap fun
    | .declared id => some id
    | _ => none

def resolvedIds (answers : List ScopeAnswer) : List Nat :=
  answers.filterMap fun
    | .resolved b? => b?.map (·.id)
    | _ => none

theorem declaredIds_append (answers answers' : List ScopeAnswer) :
    declaredIds (answers ++ answers') = declaredIds answers ++ declaredIds answers' :=
  List.filterMap_append

theorem resolvedIds_append (answers answers' : List ScopeAnswer) :
    resolvedIds (answers ++ answers') = resolvedIds answers ++ resolvedIds answers' :=
  List.filterMap_append

end ScopeAnswer

open ScopeAnswer

namespace ScopeStep

/-- The second step closes what the first one opens. -/
inductive Closes : ScopeStep → ScopeStep → Prop where
  | scope : Closes .push .pop
  | closure : Closes .enterClosure .exitClosure

/-- A step that neither opens nor closes anything. -/
inductive IsFlat : ScopeStep → Prop where
  | declare (name : String) (type : Ty) (isMutable : Bool) : IsFlat (.declare name type isMutable)
  | lookup (name : String) : IsFlat (.lookup name)
  | resolve (name : String) : IsFlat (.resolve name)

end ScopeStep

open ScopeStep

/-- Steps that close what they open, innermost first, and nothing else. -/
inductive WellNested : List ScopeStep → Prop where
  | nil : WellNested []
  | flat {step : ScopeStep} {rest : List ScopeStep} : step.IsFlat → WellNested rest →
      WellNested (step :: rest)
  | block {opening closing : ScopeStep} {inner rest : List ScopeStep} : opening.Closes closing →
      WellNested inner → WellNested rest → WellNested (opening :: inner ++ closing :: rest)

namespace Scope

def step (s : Scope) : ScopeStep → ScopeAnswer × Scope
  | .push => (.done, s.push)
  | .pop => (.done, s.pop)
  | .enterClosure => (.done, s.enterClosure)
  | .exitClosure => (.captured s.exitClosure.1, s.exitClosure.2)
  | .declare name type isMutable =>
    (.declared (s.declare name type isMutable).1, (s.declare name type isMutable).2)
  | .lookup name => (.meaning (s.lookup? name), s)
  | .resolve name => (.resolved (s.resolve name).1, (s.resolve name).2)

def after (s : Scope) (steps : List ScopeStep) : Scope :=
  steps.foldl (fun s step => (s.step step).2) s

def answers (s : Scope) : List ScopeStep → List ScopeAnswer
  | [] => []
  | step :: steps => (s.step step).1 :: answers (s.step step).2 steps

variable {s t : Scope} {steps before inner rest : List ScopeStep}

@[simp]
theorem after_nil (s : Scope) : s.after [] = s := rfl

@[simp]
theorem after_cons (s : Scope) (step : ScopeStep) (steps : List ScopeStep) :
    s.after (step :: steps) = (s.step step).2.after steps := rfl

@[simp]
theorem after_append (s : Scope) (steps steps' : List ScopeStep) :
    s.after (steps ++ steps') = (s.after steps).after steps' :=
  List.foldl_append

@[simp]
theorem answers_append (s : Scope) (steps steps' : List ScopeStep) :
    s.answers (steps ++ steps') = s.answers steps ++ (s.after steps).answers steps' := by
  induction steps generalizing s with
  | nil => rfl
  | cons step steps ih => simp [answers, ih]

@[simp]
theorem length_answers (s : Scope) (steps : List ScopeStep) :
    (s.answers steps).length = steps.length := by
  induction steps generalizing s with
  | nil => rfl
  | cons step steps ih => simp [answers, ih]

/-- The answer of the step after `before`. -/
theorem getElem?_answers (s : Scope) (before : List ScopeStep) (step : ScopeStep) (rest : List ScopeStep) :
    (s.answers (before ++ step :: rest))[before.length]? = some ((s.after before).step step).1 := by
  rw [answers_append, List.getElem?_append_right (by simp)]
  simp [answers]

theorem ofSignature_eq_after (f : Signature) :
    ofSignature f = ({} : Scope).after (f.params.map fun p => .declare p.name p.type false) := by
  rw [after, List.foldl_map]
  rfl

/-! ### Numbers -/

theorem declaredIds_step (s : Scope) (step : ScopeStep) :
    declaredIds [(s.step step).1] = List.range' s.count ((s.step step).2.count - s.count) := by
  have hpop : s.pop.count = s.count := by
    unfold pop
    split <;> rfl
  cases step with
  | declare name type isMutable => simp [Scope.step, declare, declaredIds]
  | exitClosure =>
      have : s.exitClosure.2.count = s.count := by
        unfold exitClosure
        split <;> simp [hpop]
      simp [Scope.step, this, declaredIds]
  | pop => simp [Scope.step, hpop, declaredIds]
  | resolve name =>
      have : (s.resolve name).2.count = s.count := by
        unfold resolve
        split <;> rfl
      simp [Scope.step, this, declaredIds]
  | push | enterClosure | lookup name => simp [Scope.step, push, enterClosure, declaredIds]

theorem count_le_step (s : Scope) (step : ScopeStep) : s.count ≤ (s.step step).2.count := by
  cases step with
  | pop =>
      show s.count ≤ s.pop.count
      unfold pop
      split <;> exact Nat.le_refl _
  | exitClosure =>
      show s.count ≤ s.exitClosure.2.count
      unfold exitClosure pop
      split <;> split <;> exact Nat.le_refl _
  | resolve name => exact (extends_resolve s name).count_le
  | declare name type isMutable => exact Nat.le_succ _
  | push | enterClosure | lookup name => exact Nat.le_refl _

theorem count_le_after (s : Scope) (steps : List ScopeStep) : s.count ≤ (s.after steps).count := by
  induction steps generalizing s with
  | nil => exact Nat.le_refl _
  | cons step steps ih => exact Nat.le_trans (count_le_step s step) (ih _)

/-- The variables of a run are numbered from the count on, in order. -/
theorem declaredIds_answers (s : Scope) (steps : List ScopeStep) :
    declaredIds (s.answers steps) = List.range' s.count ((s.after steps).count - s.count) := by
  induction steps generalizing s with
  | nil => simp [answers, declaredIds]
  | cons step steps ih =>
      have hstep := count_le_step s step
      have hrest := count_le_after (s.step step).2 steps
      rw [answers, ← List.singleton_append, declaredIds_append, declaredIds_step, ih, after_cons]
      obtain ⟨m, hm⟩ := Nat.exists_eq_add_of_le hstep
      obtain ⟨n, hn⟩ := Nat.exists_eq_add_of_le hrest
      rw [hn, hm, Nat.add_sub_cancel_left, Nat.add_sub_cancel_left, Nat.add_assoc,
        Nat.add_sub_cancel_left, List.range'_append_1]

/-! ### What well-nested steps leave behind -/

/-- Notes reads, each given by the number of scopes that enclose the variable and its number. -/
def OpenClosure.noteReads (c : OpenClosure) (reads : List (Nat × Nat)) : OpenClosure :=
  reads.foldl (fun c read => noteRead c read.1 read.2) c

/-- A variable with the number `id`, enclosed by `depth` scopes, that some name denotes in the scopes. -/
def Denotes (frames : List Frame) (depth id : Nat) : Prop :=
  ∃ name b, find? name frames = some (depth, b) ∧ b.id = id

/-- A variable that is declared after `s`, in a scope no further out than its innermost one. -/
structure IsNew (s : Scope) (depth id : Nat) : Prop where
  outer_le : s.outer.length ≤ depth
  count_le : s.count ≤ id

/--
`t` is what well-nested steps make of the scopes `s`: they declare the variables `new` in the
innermost scope and read `reads`, of new variables and of those in `s`.
-/
structure LeadsTo (s : Scope) (new : Frame) (reads : List (Nat × Nat)) (t : Scope) : Prop where
  innermost_eq : t.innermost = new ++ s.innermost
  outer_eq : t.outer = s.outer
  closures_eq : t.closures = s.closures.map (OpenClosure.noteReads · reads)
  count_le : s.count ≤ t.count
  new_le : ∀ entry ∈ new, s.count ≤ entry.2.id
  reads_of : ∀ read ∈ reads, s.IsNew read.1 read.2 ∨ Denotes s.frames read.1 read.2

theorem OpenClosure.noteReads_append (c : OpenClosure) (reads reads' : List (Nat × Nat)) :
    OpenClosure.noteReads c (reads ++ reads') = OpenClosure.noteReads (OpenClosure.noteReads c reads) reads' :=
  List.foldl_append

theorem OpenClosure.base_noteReads (c : OpenClosure) (reads : List (Nat × Nat)) :
    (OpenClosure.noteReads c reads).base = c.base := by
  induction reads generalizing c with
  | nil => rfl
  | cons read reads ih => exact (ih _).trans (OpenClosure.Extends.noteRead c read.1 read.2).base_eq

/-- An empty scope gives no name a meaning. -/
theorem denotes_nil_cons {frames : List Frame} {depth id : Nat} :
    Denotes ([] :: frames) depth id ↔ Denotes frames depth id :=
  Iff.rfl

theorem IsNew.push {depth id : Nat} (h : s.push.IsNew depth id) : s.IsNew depth id := by
  refine ⟨Nat.le_trans ?_ h.outer_le, h.count_le⟩
  simp [Scope.push, frames]

namespace LeadsTo

variable {u : Scope} {new new' : Frame} {reads reads' : List (Nat × Nat)}

theorem refl (s : Scope) : s.LeadsTo [] [] s where
  innermost_eq := rfl
  outer_eq := rfl
  closures_eq := by simp [OpenClosure.noteReads]
  count_le := Nat.le_refl _
  new_le := by simp
  reads_of := by simp

theorem isNew_or_denotes (h : s.LeadsTo new reads t) {depth id : Nat} (hm : Denotes t.frames depth id) :
    s.IsNew depth id ∨ Denotes s.frames depth id := by
  obtain ⟨name, b, hfind, rfl⟩ := hm
  rw [frames, h.innermost_eq, h.outer_eq, find?, List.lookup_append] at hfind
  cases hnew : new.lookup name with
  | some b' =>
      obtain ⟨rfl, rfl⟩ : s.outer.length = depth ∧ b' = b := by simpa [hnew] using hfind
      obtain ⟨l₁, l₂, rfl, -⟩ := List.lookup_eq_some_iff.mp hnew
      exact .inl ⟨Nat.le_refl _, h.new_le (name, b') (by simp)⟩
  | none => exact .inr ⟨name, b, by simpa [hnew, frames, find?] using hfind, rfl⟩

theorem trans (h : s.LeadsTo new reads t) (h' : t.LeadsTo new' reads' u) :
    s.LeadsTo (new' ++ new) (reads ++ reads') u where
  innermost_eq := by rw [h'.innermost_eq, h.innermost_eq, List.append_assoc]
  outer_eq := h'.outer_eq.trans h.outer_eq
  closures_eq := by
    rw [h'.closures_eq, h.closures_eq, List.map_map]
    simp only [OpenClosure.noteReads_append]
    rfl
  count_le := Nat.le_trans h.count_le h'.count_le
  new_le entry he := by
    rcases List.mem_append.mp he with he | he
    · exact Nat.le_trans h.count_le (h'.new_le entry he)
    · exact h.new_le entry he
  reads_of read hr := by
    rcases List.mem_append.mp hr with hr | hr
    · exact h.reads_of read hr
    · rcases h'.reads_of read hr with hnew | hm
      · exact .inl ⟨h.outer_eq ▸ hnew.outer_le, Nat.le_trans h.count_le hnew.count_le⟩
      · exact h.isNew_or_denotes hm

theorem declare (s : Scope) (name : String) (type : Ty) (isMutable : Bool) :
    s.LeadsTo [(name, { id := s.count, type, isMutable })] [] (s.declare name type isMutable).2 where
  innermost_eq := rfl
  outer_eq := rfl
  closures_eq := by simp [OpenClosure.noteReads, Scope.declare]
  count_le := Nat.le_succ _
  new_le := by simp
  reads_of := by simp

theorem resolve (s : Scope) (name : String) : ∃ reads, s.LeadsTo [] reads (s.resolve name).2 ∧
    resolvedIds [.resolved (s.resolve name).1] = reads.map (·.2) := by
  unfold Scope.resolve
  cases hfind : find? name s.frames with
  | none => exact ⟨[], refl s, rfl⟩
  | some p =>
      obtain ⟨depth, b⟩ := p
      refine ⟨[(depth, b.id)], ⟨rfl, rfl, rfl, Nat.le_refl _, by simp, ?_⟩, rfl⟩
      simp only [List.mem_singleton]
      rintro _ rfl
      exact .inr ⟨name, b, hfind, rfl⟩

/-- Closing a scope gives back the scopes around it. -/
theorem pop_eq (h : s.push.LeadsTo new reads t) :
    t.pop = { t with innermost := s.innermost, outer := s.outer } := by
  simp [Scope.pop, h.outer_eq, push, frames]

theorem pop (h : s.push.LeadsTo new reads t) : s.LeadsTo [] reads t.pop := by
  rw [h.pop_eq]
  exact ⟨rfl, rfl, h.closures_eq, h.count_le, by simp, fun read hr => (h.reads_of read hr).imp IsNew.push id⟩

/-- What steps make of a scope that a closure was entered in, they make of the scope without the closure. -/
theorem withoutClosure (h : s.enterClosure.LeadsTo new reads t) :
    s.push.LeadsTo new reads { t with closures := s.closures.map (OpenClosure.noteReads · reads) } :=
  ⟨h.innermost_eq, h.outer_eq, rfl, h.count_le, h.new_le,
    fun read hr => (h.reads_of read hr).imp (fun hn => ⟨hn.outer_le, hn.count_le⟩) id⟩

theorem exitClosure_eq (h : s.enterClosure.LeadsTo new reads t) : t.exitClosure =
    ((OpenClosure.noteReads { base := s.frames.length } reads).captures,
      ({ t with closures := s.closures.map (OpenClosure.noteReads · reads) } : Scope).pop) := by
  have hc : t.closures = OpenClosure.noteReads { base := s.frames.length } reads ::
      s.closures.map (OpenClosure.noteReads · reads) := h.closures_eq
  rw [h.withoutClosure.pop_eq]
  simp [Scope.exitClosure, hc, Scope.pop, h.outer_eq, enterClosure, push, frames]

/-- After the step that closes them, the steps inside leave the scopes around as they were, but for reads. -/
theorem closed {opening closing : ScopeStep} (hcloses : opening.Closes closing)
    (h : (s.step opening).2.LeadsTo new reads t) : s.LeadsTo [] reads (t.step closing).2 := by
  cases hcloses with
  | scope => exact LeadsTo.pop h
  | closure =>
      show s.LeadsTo [] reads t.exitClosure.2
      rw [LeadsTo.exitClosure_eq h]
      exact (LeadsTo.withoutClosure h).pop

end LeadsTo

theorem resolvedIds_block {opening closing : ScopeStep} (hcloses : opening.Closes closing) (s : Scope)
    (inner : List ScopeStep) : resolvedIds (s.answers (opening :: inner ++ [closing])) =
      resolvedIds ((s.step opening).2.answers inner) := by
  rw [List.cons_append, answers, answers_append, ← List.singleton_append, resolvedIds_append,
    resolvedIds_append]
  cases hcloses <;> simp [answers, step, resolvedIds]

/-- Well-nested steps declare variables in the innermost scope and read names, and do nothing else. -/
theorem exists_leadsTo (h : WellNested steps) (s : Scope) : ∃ new reads,
    s.LeadsTo new reads (s.after steps) ∧ resolvedIds (s.answers steps) = reads.map (·.2) := by
  induction h generalizing s with
  | nil => exact ⟨[], [], .refl s, rfl⟩
  | @flat step rest hflat _ ih =>
      obtain ⟨new, reads, hrest, hreads⟩ := ih (s.step step).2
      have hfirst : ∃ new reads, s.LeadsTo new reads (s.step step).2 ∧
          resolvedIds [(s.step step).1] = reads.map (·.2) := by
        cases hflat with
        | declare name type isMutable => exact ⟨_, _, .declare s name type isMutable, rfl⟩
        | lookup name => exact ⟨_, _, .refl s, rfl⟩
        | resolve name =>
            obtain ⟨reads, hreads⟩ := LeadsTo.resolve s name
            exact ⟨[], reads, hreads⟩
      obtain ⟨new', reads', hfirst, hreads'⟩ := hfirst
      refine ⟨_, _, hfirst.trans hrest, ?_⟩
      rw [answers, ← List.singleton_append, resolvedIds_append, hreads, hreads', List.map_append]
  | @block opening closing inner rest hcloses _ _ ihinner ihrest =>
      obtain ⟨new, reads, hinner, hreads⟩ := ihinner (s.step opening).2
      have hblock : s.LeadsTo [] reads (s.after (opening :: inner ++ [closing])) := by
        rw [after_append]
        exact hinner.closed hcloses
      obtain ⟨new', reads', hrest, hreads'⟩ := ihrest (s.after (opening :: inner ++ [closing]))
      rw [show opening :: inner ++ closing :: rest = (opening :: inner ++ [closing]) ++ rest by simp]
      refine ⟨_, _, by rw [after_append]; exact hblock.trans hrest, ?_⟩
      rw [answers_append, resolvedIds_append, resolvedIds_block hcloses, hreads, hreads', List.map_append]

/-! ### Captures -/

/--
Where the scope's place in a read tells whether the variable is one of `p`, a closure captures
the variables of `p` that are read, each once and in order of the first read.
-/
theorem OpenClosure.captures_noteReads {base : Nat} {reads : List (Nat × Nat)} {p : Nat → Bool}
    (h : ∀ read ∈ reads, read.1 < base ↔ p read.2) :
    (OpenClosure.noteReads { base } reads).captures = ((reads.map (·.2)).filter p).eraseDups := by
  induction reads using List.reverseRecOn with
  | nil => rfl
  | append_singleton reads read ih =>
      have hbase := OpenClosure.base_noteReads { base } reads
      have hread := h read (by simp)
      have ih := ih fun r hr => h r (by simp [hr])
      have hmem : read.2 ∈ (OpenClosure.noteReads { base } reads).captures ↔
          read.2 ∈ (reads.map (·.2)).filter p := by rw [ih, List.mem_eraseDups]
      rw [OpenClosure.noteReads_append, List.map_append, List.filter_append, List.eraseDups_append, ← ih]
      show (noteRead (OpenClosure.noteReads { base } reads) read.1 read.2).captures = _
      unfold noteRead
      rw [hbase]
      by_cases hp : p read.2
      · have hlt : read.1 < base := hread.mpr hp
        by_cases hseen : read.2 ∈ (reads.map (·.2)).filter p
        · simp [hp, List.removeAll, hmem.mpr hseen, hseen]
        · simp [hp, hlt, List.removeAll, mt hmem.mp hseen, hseen, List.eraseDups_cons]
      · simp [mt hread.mp hp, hp]

/-! ### Runs -/

theorem resolve_fst (s : Scope) (name : String) : (s.resolve name).1 = s.lookup? name := by
  unfold resolve lookup?
  cases find? name s.frames <;> rfl

def Numbered (s : Scope) : Prop :=
  ∀ f ∈ s.frames, ∀ entry ∈ f, entry.2.id < s.count

theorem Numbered.lt_of_denotes (h : s.Numbered) {depth id : Nat} (hm : Denotes s.frames depth id) :
    depth < s.frames.length ∧ id < s.count := by
  obtain ⟨name, b, hfind, rfl⟩ := hm
  suffices hall : ∀ frames : List Frame, (∀ f ∈ frames, ∀ entry ∈ f, entry.2.id < s.count) →
      find? name frames = some (depth, b) → depth < frames.length ∧ b.id < s.count from hall _ h hfind
  intro frames hframes hfind
  induction frames with
  | nil => cases hfind
  | cons f frames ih =>
      rw [find?] at hfind
      cases hl : f.lookup name with
      | some b' =>
          obtain ⟨rfl, rfl⟩ : frames.length = depth ∧ b' = b := by simpa [hl] using hfind
          obtain ⟨l₁, l₂, rfl, -⟩ := List.lookup_eq_some_iff.mp hl
          exact ⟨by simp, hframes _ List.mem_cons_self (name, b') (by simp)⟩
      | none =>
          obtain ⟨hdepth, hid⟩ := ih (fun g hg => hframes g (by simp [hg])) (by simpa [hl] using hfind)
          exact ⟨by simp; omega, hid⟩

theorem Numbered.pop (h : s.Numbered) : s.pop.Numbered := by
  unfold Scope.pop
  split
  · exact h
  · rename_i f fs houter
    intro g hg
    exact h g (by simp_all [frames])

theorem Numbered.step (h : s.Numbered) (step : ScopeStep) : (s.step step).2.Numbered := by
  cases step with
  | pop => exact h.pop
  | exitClosure =>
      show s.exitClosure.2.Numbered
      unfold Scope.exitClosure
      split
      · exact h.pop
      · exact h.pop
  | push | enterClosure =>
      intro f hf
      rcases List.mem_cons.mp hf with rfl | hf
      · exact fun entry he => (List.not_mem_nil he).elim
      · exact h f hf
  | declare name type isMutable =>
      have hall : ∀ f ∈ s.frames, ∀ entry ∈ f, entry.2.id < s.count + 1 := fun f hf entry he =>
        Nat.lt_succ_of_lt (h f hf entry he)
      intro f hf
      rcases List.mem_cons.mp hf with rfl | hf
      · intro entry he
        rcases List.mem_cons.mp he with rfl | he
        · exact Nat.lt_succ_self _
        · exact hall _ List.mem_cons_self entry he
      · exact hall f (by simp [frames, show f ∈ s.outer from hf])
  | lookup name => exact h
  | resolve name =>
      intro f hf entry he
      have hext := extends_resolve s name
      exact Nat.lt_of_lt_of_le (h f (hext.frames_eq ▸ hf) entry he) hext.count_le

theorem Numbered.after (h : s.Numbered) (steps : List ScopeStep) : (s.after steps).Numbered := by
  induction steps generalizing s with
  | nil => exact h
  | cons step steps ih => exact ih (h.step step)

theorem numbered_new : ({} : Scope).Numbered := by
  simp [Numbered, frames]

/-- A closure that is left has captured what was read inside of it and is declared outside. -/
theorem exitClosure_after (h : s.Numbered) (hinner : WellNested inner) :
    (s.enterClosure.after inner).exitClosure.1 =
      ((resolvedIds (s.enterClosure.answers inner)).filter (· < s.count)).eraseDups := by
  obtain ⟨new, reads, hleads, hreads⟩ := exists_leadsTo hinner s.enterClosure
  rw [hleads.exitClosure_eq, hreads, OpenClosure.captures_noteReads]
  intro read hr
  rcases hleads.reads_of read hr with hnew | hm
  · have hdepth : s.frames.length ≤ read.1 := hnew.outer_le
    have hid : s.count ≤ read.2 := hnew.count_le
    simp
    omega
  · obtain ⟨hdepth, hid⟩ := h.lt_of_denotes (denotes_nil_cons.mp hm)
    simp [hdepth, hid]

theorem frames_after_block {opening closing : ScopeStep} (hcloses : opening.Closes closing)
    (hinner : WellNested inner) (s : Scope) : (s.after (opening :: inner ++ [closing])).frames = s.frames := by
  obtain ⟨new, reads, hleads, -⟩ := exists_leadsTo hinner (s.step opening).2
  have hclosed := hleads.closed hcloses
  rw [after_append]
  show (((s.step opening).2.after inner).step closing).2.frames = s.frames
  rw [frames, frames, hclosed.innermost_eq, hclosed.outer_eq, List.nil_append]

/--
The laws of a run, in which scopes and closures may be opened anywhere (the parameters of a
function are declared by such a run: `ofSignature_eq_after`).

* The variables are numbered by 0, 1, 2, … in the order in which they are declared.
* A name is resolved to what it denotes.
* After well-nested steps and the step that closes what was opened before them, every name
  denotes what it denoted before it was opened.
* A closure that is left has captured, in order of the first time and each once, the variables
  that were resolved since it was entered and had been declared before.
-/
theorem run_laws (steps : List ScopeStep) :
    let new : Scope := {}
    (declaredIds (new.answers steps)).Nodup ∧
    declaredIds (new.answers steps) = List.range (new.after steps).count ∧
    (∀ before name rest, steps = before ++ .resolve name :: rest →
      (new.answers steps)[before.length]? = some (.resolved ((new.after before).lookup? name))) ∧
    (∀ before opening inner closing rest, steps = before ++ (opening :: inner ++ closing :: rest) →
      opening.Closes closing → WellNested inner → ∀ name,
        (new.after (before ++ (opening :: inner ++ [closing]))).lookup? name =
          (new.after before).lookup? name) ∧
    ∀ before inner rest, steps = before ++ (.enterClosure :: inner ++ .exitClosure :: rest) → WellNested inner →
      (new.answers steps)[before.length + inner.length + 1]? = some (.captured
        ((resolvedIds ((new.after (before ++ [.enterClosure])).answers inner)).filter
          (· ∈ declaredIds (new.answers before))).eraseDups) := by
  intro new
  have hdeclared (steps : List ScopeStep) :
      declaredIds (new.answers steps) = List.range (new.after steps).count := by
    rw [declaredIds_answers, List.range_eq_range']
    rfl
  refine ⟨hdeclared steps ▸ List.nodup_range, hdeclared steps, ?_, ?_, ?_⟩
  · rintro before name rest rfl
    rw [getElem?_answers]
    simp only [step, resolve_fst]
  · rintro before opening inner closing rest - hcloses hinner name
    rw [after_append, lookup?, lookup?, frames_after_block hcloses hinner]
  · rintro before inner rest rfl hinner
    have hsplit : before ++ (.enterClosure :: inner ++ .exitClosure :: rest) =
        (before ++ .enterClosure :: inner) ++ .exitClosure :: rest := by simp
    have hlength : before.length + inner.length + 1 = (before ++ .enterClosure :: inner).length := by simp; omega
    rw [hsplit, hlength, getElem?_answers, after_append, after_append]
    show some (ScopeAnswer.captured ((new.after before).enterClosure.after inner).exitClosure.1) = _
    rw [exitClosure_after (numbered_new.after before) hinner, hdeclared before]
    simp only [List.mem_range]
    rfl

/-- A closure within a closure captures what it reads of both functions around it, and so does the outer one. -/
theorem run_laws_nested :
    let declareX : ScopeStep := .declare "x" .int false
    let inner : List ScopeStep := [.declare "y" .int false, .enterClosure, .resolve "y", .resolve "x",
      .resolve "x", .exitClosure, .push, .declare "x" .bool true, .resolve "x", .pop]
    let steps := [declareX] ++ (.enterClosure :: inner ++ .exitClosure :: [.resolve "x"])
    WellNested inner ∧ declaredIds (({} : Scope).answers steps) = [0, 1, 2] ∧
      (({} : Scope).answers steps)[7]? = some (.captured [1, 0]) ∧
      (({} : Scope).answers steps)[12]? = some (.captured [0]) ∧
      (({} : Scope).after ([declareX] ++ (.enterClosure :: inner ++ [.exitClosure]))).lookup? "x" =
        some { id := 0, type := .int, isMutable := false } := by
  intro declareX inner steps
  have hread : WellNested [.resolve "y", .resolve "x", .resolve "x"] :=
    .flat (.resolve _) (.flat (.resolve _) (.flat (.resolve _) .nil))
  have hshadow : WellNested [.declare "x" .bool true, .resolve "x"] :=
    .flat (.declare _ _ _) (.flat (.resolve _) .nil)
  have hinner : WellNested inner :=
    .flat (.declare _ _ _) (.block .closure hread (.block .scope hshadow .nil))
  obtain ⟨-, hids, -, hclose, hcaptured⟩ := run_laws steps
  refine ⟨hinner, hids, ?_, ?_, ?_⟩
  · exact (hcaptured [declareX, .enterClosure, .declare "y" .int false]
      [.resolve "y", .resolve "x", .resolve "x"] _ rfl hread).trans (by decide)
  · exact (hcaptured [declareX] inner [.resolve "x"] rfl hinner).trans (by decide)
  · exact (hclose [declareX] .enterClosure inner .exitClosure [.resolve "x"] rfl .closure hinner "x").trans rfl

end Scope

end Boxlang
