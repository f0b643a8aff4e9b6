import Boxlang.Proofs.Analysis.Reports

/-!
# The listing of reports

Bodies may be analysed at the same time, so that their reports come interleaved in
any way.  The listing does not show how: reports of different bodies differ in the
function they are about, and among the reports of one function and offset the stable
sort keeps the order in which they were made.
-/

namespace Boxlang

/-! ### Interleavings -/

/-- The list takes all elements from the given lists, those of each list in their order. -/
inductive Interleaves {α : Type} : List (List α) → List α → Prop
  | done {ls : List (List α)} (h : ∀ l ∈ ls, l = []) : Interleaves ls []
  | next {before after : List (List α)} {a : α} {l rest : List α}
    (h : Interleaves (before ++ l :: after) rest) :
    Interleaves (before ++ (a :: l) :: after) (a :: rest)

namespace Interleaves

variable {α β : Type} {ls : List (List α)} {l : List α}

/-- Nothing is lost and nothing is added. -/
theorem perm (h : Interleaves ls l) : l.Perm ls.flatten := by
  induction h with
  | done h => rw [List.flatten_eq_nil_iff.mpr h]
  | @next before after a l rest _ ih =>
    refine (ih.cons a).trans ?_
    simp only [List.flatten_append, List.flatten_cons, List.cons_append]
    exact List.perm_middle.symm

def Keyed (key : α → β) (ls : List (List α)) : Prop :=
  ls.Pairwise fun l l' => ∀ a ∈ l, ∀ b ∈ l', key a ≠ key b

theorem Keyed.tail {key : α → β} {before after : List (List α)} {a : α}
    (h : Keyed key (before ++ (a :: l) :: after)) : Keyed key (before ++ l :: after) := by
  have htail : ∀ b ∈ l, b ∈ a :: l := fun _ => List.mem_cons_of_mem a
  unfold Keyed at h ⊢
  simp only [List.pairwise_append, List.pairwise_cons, List.forall_mem_cons] at h ⊢
  obtain ⟨hbefore, ⟨hl, hafter⟩, hcross⟩ := h
  exact ⟨hbefore, ⟨fun l' hl' => (hl l' hl').2, hafter⟩,
    fun l' hl' => ⟨fun b hb => ((hcross l' hl').1 b hb).2, (hcross l' hl').2⟩⟩

/-- Where elements of different lists differ in the key, those of one key are in their order. -/
theorem filter_eq [DecidableEq β] {key : α → β} (h : Interleaves ls l) (hkeys : Keyed key ls)
    (k : β) : l.filter (key · = k) = ls.flatten.filter (key · = k) := by
  induction h with
  | done h => rw [List.flatten_eq_nil_iff.mpr h]
  | @next before after a l rest _ ih =>
    have hrest := ih hkeys.tail
    by_cases ha : key a = k
    · -- No list before that of `a` has elements of its key.
      have hnone : before.flatten.filter (key · = k) = [] := by
        rw [List.filter_eq_nil_iff]
        intro b hb
        obtain ⟨l', hl', hb⟩ := List.mem_flatten.mp hb
        have hne := (List.pairwise_append.mp hkeys).2.2 l' hl' (a :: l) List.mem_cons_self
          b hb a List.mem_cons_self
        simpa [← ha] using hne
      simp [ha, hrest, hnone]
    · simp [ha, hrest]

end Interleaves

/-! ### Stable sorting -/

section Sorting

variable {α : Type} {le : α → α → Bool}

/-- Sorting keeps the order of elements that compare equal. -/
theorem filter_mergeSort_eq (trans : ∀ a b c, le a b → le b c → le a c)
    (total : ∀ a b, le a b || le b a) (l : List α) (a : α) :
    (l.mergeSort le).filter (fun b => le a b && le b a) = l.filter (fun b => le a b && le b a) := by
  have hsorted : (l.filter fun b => le a b && le b a).Pairwise (le · ·) := by
    refine List.pairwise_of_forall_mem_list fun b hb c hc => ?_
    simp only [List.mem_filter, Bool.and_eq_true] at hb hc
    exact trans b a c hb.2.2 hc.2.1
  have hsub := (List.sublist_mergeSort trans total hsorted List.filter_sublist).filter
    fun b => le a b && le b a
  rw [List.filter_filter] at hsub
  simp only [Bool.and_self] at hsub
  exact (hsub.eq_of_length ((List.mergeSort_perm l le).filter _).length_eq.symm).symm

/-- A sorted list is known by its elements that compare equal, class by class. -/
theorem eq_of_pairwise_of_filter_eq (total : ∀ a b, le a b || le b a) {l l' : List α}
    (hl : l.Pairwise (le · ·)) (hl' : l'.Pairwise (le · ·))
    (h : ∀ a, l.filter (fun b => le a b && le b a) = l'.filter (fun b => le a b && le b a)) :
    l = l' := by
  have hrefl (a : α) : le a a = true := by simpa using total a a
  have hmem {l₁ l₂ : List α}
      (h : ∀ a, l₁.filter (fun b => le a b && le b a) = l₂.filter (fun b => le a b && le b a))
      {a : α} (ha : a ∈ l₁) : a ∈ l₂ := by
    have hmem : a ∈ l₁.filter (fun b => le a b && le b a) := by simp [ha, hrefl]
    rw [h a] at hmem
    exact List.mem_of_mem_filter hmem
  induction l generalizing l' with
  | nil =>
    refine (List.eq_nil_iff_forall_not_mem.mpr fun a ha => ?_).symm
    exact absurd (hmem (fun a => (h a).symm) ha) List.not_mem_nil
  | cons a l ih =>
    cases l' with
    | nil => exact absurd (hmem h List.mem_cons_self) List.not_mem_nil
    | cons b l' =>
      -- Each of the two heads is least in its list and occurs in the other.
      have hab : le a b = true := by
        rcases List.mem_cons.mp (hmem (fun a => (h a).symm) (List.mem_cons_self (a := b))) with
          rfl | hb
        · exact hrefl b
        · exact (List.pairwise_cons.mp hl).1 b hb
      have hba : le b a = true := by
        rcases List.mem_cons.mp (hmem h (List.mem_cons_self (a := a))) with rfl | ha
        · exact hrefl a
        · exact (List.pairwise_cons.mp hl').1 a ha
      have hheads := h a
      rw [List.filter_cons_of_pos (by simp [hrefl]), List.filter_cons_of_pos (by simp [hab, hba])]
        at hheads
      obtain rfl : a = b := (List.cons.inj hheads).1
      rw [ih (List.pairwise_cons.mp hl).2 (List.pairwise_cons.mp hl').2 fun c => ?_]
      have hc := h c
      rw [List.filter_cons, List.filter_cons] at hc
      split at hc
      · exact (List.cons.inj hc).2
      · exact hc

end Sorting

/-! ### The listing -/

namespace Report

theorem le_iff {a b : Report} :
    a.le b = true ↔ a.function ≤ b.function ∧
      (a.function = b.function → a.error.span.offset ≤ b.error.span.offset) := by
  unfold le
  by_cases h : a.function = b.function
  · simp [h]
  · simp [h]

theorem le_total (a b : Report) : a.le b || b.le a := by
  unfold le
  by_cases h : a.function = b.function
  · simp [h, Nat.le_total]
  · simp [h, Ne.symm h, String.le_total]

theorem le_trans (a b c : Report) (hab : a.le b) (hbc : b.le c) : a.le c := by
  obtain ⟨hf, ho⟩ := le_iff.mp hab
  obtain ⟨hf', ho'⟩ := le_iff.mp hbc
  refine le_iff.mpr ⟨String.le_trans hf hf', fun hac => ?_⟩
  have heq : a.function = b.function := String.le_antisymm hf (hac ▸ hf')
  exact Nat.le_trans (ho heq) (ho' (heq ▸ hac))

theorem le_and_le_iff (a b : Report) :
    (a.le b && b.le a) = true ↔
      b.function = a.function ∧ b.error.span.offset = a.error.span.offset := by
  rw [Bool.and_eq_true, le_iff, le_iff]
  constructor
  · rintro ⟨⟨hf, ho⟩, hf', ho'⟩
    have heq : b.function = a.function := String.le_antisymm hf' hf
    exact ⟨heq, Nat.le_antisymm (ho' heq) (ho heq.symm)⟩
  · rintro ⟨hf, ho⟩
    simp [hf, ho]

def at? (function : String) (offset : Nat) (r : Report) : Bool :=
  r.function = function && r.error.span.offset = offset

theorem le_and_le_eq (a : Report) :
    (fun b : Report => a.le b && b.le a) = at? a.function a.error.span.offset := by
  funext b
  rw [Bool.eq_iff_iff, le_and_le_iff]
  simp [at?]

theorem perm_sort (reports : List Report) : (sort reports).Perm reports :=
  List.mergeSort_perm reports le

theorem pairwise_sort (reports : List Report) : (sort reports).Pairwise (le · ·) :=
  List.pairwise_mergeSort le_trans le_total reports

theorem filter_sort (reports : List Report) (function : String) (offset : Nat) :
    (sort reports).filter (at? function offset) = reports.filter (at? function offset) := by
  have h := filter_mergeSort_eq le_trans le_total reports
    { function, error := .noValueWithoutOptional { offset, length := 0 } }
  rwa [le_and_le_eq] at h

theorem filter_at?_eq (reports : List Report) (function : String) (offset : Nat) :
    reports.filter (at? function offset) =
      (reports.filter (·.function = function)).filter (·.error.span.offset = offset) := by
  rw [List.filter_filter]
  exact List.filter_congr fun r _ => by simp [at?, Bool.and_comm]

theorem sort_congr {reports reports' : List Report}
    (h : ∀ name, reports.filter (·.function = name) = reports'.filter (·.function = name)) :
    sort reports = sort reports' := by
  refine eq_of_pairwise_of_filter_eq le_total (pairwise_sort _) (pairwise_sort _) fun a => ?_
  rw [le_and_le_eq, filter_sort, filter_sort, filter_at?_eq, filter_at?_eq, h]

end Report

namespace Package

variable (p : Package) (warnDeprecated : Bool) {ds : List Definition}

/-- Reports on bodies of differently named functions differ in the name. -/
theorem keyed_reportsOf (hnames : (ds.map p.ownerName).Nodup) :
    Interleaves.Keyed Report.function (ds.map (p.reportsOf warnDeprecated)) := by
  refine List.pairwise_map.mpr ((List.pairwise_map.mp hnames).imp fun {d d'} hne r hr r' hr' => ?_)
  rw [p.function_eq_of_mem_reportsOf _ hr, p.function_eq_of_mem_reportsOf _ hr']
  exact hne

theorem filter_flatten_reportsOf (hnames : (ds.map p.ownerName).Nodup) {d : Definition}
    (hd : d ∈ ds) :
    (ds.map (p.reportsOf warnDeprecated)).flatten.filter (·.function = p.ownerName d) =
      p.reportsOf warnDeprecated d := by
  have hown (d d' : Definition) (r : Report) (hr : r ∈ p.reportsOf warnDeprecated d') :
      r.function = p.ownerName d ↔ p.ownerName d' = p.ownerName d := by
    rw [p.function_eq_of_mem_reportsOf _ hr]
  induction ds with
  | nil => exact absurd hd List.not_mem_nil
  | cons d' ds ih =>
    obtain ⟨hne, hnames⟩ := List.nodup_cons.mp hnames
    rw [List.map_cons, List.flatten_cons, List.filter_append]
    rcases List.mem_cons.mp hd with rfl | hd
    · have hall : (p.reportsOf warnDeprecated d).filter (·.function = p.ownerName d) =
          p.reportsOf warnDeprecated d :=
        List.filter_eq_self.mpr fun r hr => by simp [hown d d r hr]
      have hnone : (ds.map (p.reportsOf warnDeprecated)).flatten.filter
          (·.function = p.ownerName d) = [] := by
        refine List.filter_eq_nil_iff.mpr fun r hr => ?_
        obtain ⟨_, hl, hr⟩ := List.mem_flatten.mp hr
        obtain ⟨d', hd', rfl⟩ := List.mem_map.mp hl
        have : p.ownerName d' ≠ p.ownerName d := fun he =>
          hne (he ▸ List.mem_map_of_mem hd')
        simpa [hown d d' r hr] using this
      rw [hall, hnone, List.append_nil]
    · have hnone : (p.reportsOf warnDeprecated d').filter (·.function = p.ownerName d) = [] := by
        refine List.filter_eq_nil_iff.mpr fun r hr => ?_
        have : p.ownerName d' ≠ p.ownerName d := fun he =>
          hne (he ▸ List.mem_map_of_mem hd)
        simpa [hown d d' r hr] using this
      rw [hnone, List.nil_append, ih hnames hd]

/--
However the reports on bodies of differently named functions are interleaved, the
listing is that of the bodies analysed one after the other.  It has every report
once, in listing order, and those about one offset of a body in the order in which
the analysis of that body made them.
-/
theorem sort_eq_of_interleaves (hnames : (ds.map p.ownerName).Nodup) {reports : List Report}
    (h : Interleaves (ds.map (p.reportsOf warnDeprecated)) reports) :
    Report.sort reports = Report.sort (p.analyse warnDeprecated ds []).2 ∧
    (Report.sort reports).Perm (ds.map (p.reportsOf warnDeprecated)).flatten ∧
    (Report.sort reports).Pairwise (·.le ·) ∧
    ∀ d ∈ ds, ∀ offset,
      (Report.sort reports).filter (Report.at? (p.ownerName d) offset) =
        (p.reportsOf warnDeprecated d).filter (·.error.span.offset = offset) := by
  have hfilter := h.filter_eq (p.keyed_reportsOf warnDeprecated hnames)
  refine ⟨?_, (Report.perm_sort reports).trans h.perm, Report.pairwise_sort reports, ?_⟩
  · rw [analyse_eq]
    exact Report.sort_congr hfilter
  · intro d hd offset
    rw [Report.filter_sort, Report.filter_at?_eq, hfilter,
      p.filter_flatten_reportsOf warnDeprecated hnames hd]

end Package

def twoFunctions : Package where
  functions := [{ name := "second" }, { name := "first" }]

/-- The body `x; x`, with both names in one place, where there is no such variable. -/
def readsUnknown (function : FunctionId) : Definition where
  function := function
  body :=
    { arena := { nodes := #[
        { span := ⟨0, 1⟩, kind := .localRef ⟨"x", ⟨0, 1⟩⟩ none },
        { span := ⟨0, 1⟩, kind := .localRef ⟨"x", ⟨0, 2⟩⟩ none }] }
      stmts := [.expr 0, .expr 1] }

/-- The report on the body of a function that `x` is unknown. -/
def unknownIn (function : String) (length : Nat) : Report :=
  { function, error := .unresolved .variableName "x" ⟨0, length⟩ }

/-- The reports of two bodies, taken in turn, are listed as those of the bodies in order. -/
theorem Package.sort_eq_readsUnknown :
    let ds := [readsUnknown 0, readsUnknown 1]
    let inTurn :=
      [unknownIn "second" 1, unknownIn "first" 1, unknownIn "second" 2, unknownIn "first" 2]
    (ds.map twoFunctions.ownerName).Nodup ∧
      Interleaves (ds.map (twoFunctions.reportsOf true)) inTurn ∧
      inTurn ≠ (twoFunctions.analyse true ds []).2 ∧
      Report.sort inTurn = Report.sort (twoFunctions.analyse true ds []).2 := by
  intro ds inTurn
  have hnames : (ds.map twoFunctions.ownerName).Nodup := by decide
  have hreports : ds.map (twoFunctions.reportsOf true) =
      [[unknownIn "second" 1, unknownIn "second" 2], [unknownIn "first" 1, unknownIn "first" 2]] := by
    decide
  have hinTurn : Interleaves (ds.map (twoFunctions.reportsOf true)) inTurn := by
    rw [hreports]
    -- Each of the two lists gives its next report in turn.
    refine @Interleaves.next _ [] _ _ _ _ (@Interleaves.next _ [_] [] _ _ _ ?_)
    refine @Interleaves.next _ [] _ _ _ _ (@Interleaves.next _ [_] [] _ _ _ ?_)
    exact .done (by simp)
  refine ⟨hnames, hinTurn, ?_, (twoFunctions.sort_eq_of_interleaves true hnames hinTurn).1⟩
  decide

end Boxlang
