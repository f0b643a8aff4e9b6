import Boxlang.Proofs.Analysis.Statement
import Boxlang.Proofs.Elaboration.Expr

/-!
# Elaborated statements

What the statements of a body analysed without errors look like.  A statement is
read in a table of the variables declared so far (`Locals`) and leaves another one:
declarations add to it, and an assignment gives its variable a value.
-/

namespace Boxlang

open Conversion

structure Variable where
  type : Ty
  isMutable : Bool
  hasValue : Bool

abbrev Locals := VariableId → Option Variable

namespace Locals

def context (L : Locals) : Context := fun id t =>
  ∃ v, L id = some v ∧ v.type = t ∧ v.hasValue = true

def set (L : Locals) (id : VariableId) (v : Variable) : Locals :=
  Function.update L id (some v)

theorem set_self (L : Locals) (id : VariableId) (v : Variable) : L.set id v id = some v :=
  Function.update_self ..

theorem set_of_ne (L : Locals) {id id' : VariableId} (h : id' ≠ id) (v : Variable) :
    L.set id v id' = L id' :=
  Function.update_of_ne h ..

def ofSignature (f : Signature) : Locals := fun id =>
  f.params[id]?.map fun param => { type := param.type, isMutable := false, hasValue := true }

end Locals

/-- A statement of a function that returns `ret`, whose expressions are elaborated and fit it. -/
inductive StmtOk (p : Package) (ret : Ty) (a : Arena) : Locals → Stmt → Locals → Prop where
  | letInit {L : Locals} {stmt : LetStmt} {init : Slot} {id : VariableId} {t : Ty} :
      stmt.init? = some init → stmt.id? = some id → stmt.resolved? = some t → L id = none →
      t.mentionsError = false → Elaborated p a L.context init →
      p.declarations.llvmType (a.typeAt init) = p.declarations.llvmType t →
      StmtOk p ret a L (.letStmt stmt) (L.set id ⟨t, stmt.isMutable, true⟩)
  | letDeferred {L : Locals} {stmt : LetStmt} {id : VariableId} {t : Ty} :
      stmt.init? = none → stmt.id? = some id → stmt.resolved? = some t → L id = none →
      t.mentionsError = false →
      StmtOk p ret a L (.letStmt stmt) (L.set id ⟨t, stmt.isMutable, false⟩)
  | assign {L : Locals} {stmt : AssignStmt} {id : VariableId} {v : Variable} :
      stmt.id? = some id → L id = some v → v.isMutable = true ∨ v.hasValue = false →
      Elaborated p a L.context stmt.value → Alike p.declarations (a.typeAt stmt.value) v.type →
      StmtOk p ret a L (.assign stmt) (L.set id { v with hasValue := true })
  | expr {L : Locals} {slot : Slot} : Elaborated p a L.context slot →
      StmtOk p ret a L (.expr slot) L
  | retValue {L : Locals} {stmt : ReturnStmt} {slot : Slot} : stmt.value? = some slot →
      Elaborated p a L.context slot → Alike p.declarations (a.typeAt slot) ret →
      StmtOk p ret a L (.ret stmt) L
  | retNothing {L : Locals} {stmt : ReturnStmt} : stmt.value? = none → ret = .nothing →
      StmtOk p ret a L (.ret stmt) L

inductive StmtsOk (p : Package) (ret : Ty) (a : Arena) : Locals → List Stmt → Prop where
  | nil (L : Locals) : StmtsOk p ret a L []
  | cons {L L' : Locals} {stmt : Stmt} {stmts : List Stmt} : StmtOk p ret a L stmt L' →
      StmtsOk p ret a L' stmts → StmtsOk p ret a L (stmt :: stmts)

variable {p : Package} {ret : Ty} {a b : Arena} {L L' : Locals} {stmt : Stmt}

theorem StmtOk.elaborated (h : StmtOk p ret a L stmt L') :
    ∀ c ∈ stmt.slots, Elaborated p a L.context c := by
  cases h with
  | letInit hinit _ _ _ _ he _ => simpa [Stmt.slots, hinit] using he
  | letDeferred hinit _ _ _ _ => simp [Stmt.slots, hinit]
  | assign _ _ _ he _ => simpa [Stmt.slots] using he
  | expr he => simpa [Stmt.slots] using he
  | retValue hvalue he _ => simpa [Stmt.slots, hvalue] using he
  | retNothing hvalue _ => simp [Stmt.slots, hvalue]

/-- A statement is elaborated in every arena that agrees on its expressions. -/
theorem StmtOk.congr (h : StmtOk p ret a L stmt L')
    (hab : ∀ c ∈ stmt.slots, ∀ x, a.Reaches c x → b.get x = a.get x) :
    StmtOk p ret b L stmt L' := by
  cases h with
  | letInit hinit hid hres hnew hte he ht =>
      have hc := by simpa [Stmt.slots, hinit] using hab
      have htype := Arena.typeAt_congr (hc _ (.refl a _))
      exact .letInit hinit hid hres hnew hte (he.congr hc) (htype ▸ ht)
  | letDeferred hinit hid hres hnew hte => exact .letDeferred hinit hid hres hnew hte
  | assign hid hv hfirst he hlike =>
      have hc := by simpa [Stmt.slots] using hab
      exact .assign hid hv hfirst (he.congr hc) (Arena.typeAt_congr (hc _ (.refl a _)) ▸ hlike)
  | expr he => exact .expr (he.congr (by simpa [Stmt.slots] using hab))
  | retValue hvalue he hlike =>
      have hc := by simpa [Stmt.slots, hvalue] using hab
      exact .retValue hvalue (he.congr hc) (Arena.typeAt_congr (hc _ (.refl a _)) ▸ hlike)
  | retNothing hvalue hret => exact .retNothing hvalue hret

theorem StmtsOk.elaborated {stmts : List Stmt} (h : StmtsOk p ret a L stmts) :
    ∀ c ∈ stmts.flatMap Stmt.slots, ∃ Γ, Elaborated p a Γ c := by
  induction h with
  | nil => simp
  | cons hstmt _ ih =>
      intro c hc
      rw [List.flatMap_cons] at hc
      rcases List.mem_append.mp hc with hc | hc
      · exact ⟨_, hstmt.elaborated c hc⟩
      · exact ih c hc

/-! ### Declarations and initial values -/

namespace AnalysisState

variable {a₀ : Arena} {s : AnalysisState} {t : Ty}

theorem isInitialized_record (i : Incident) (id : VariableId) (h : i ≠ .initialized id) :
    ({ s with path := s.path.record i } : AnalysisState).isInitialized id = s.isInitialized id := by
  have hsame : (s.path.record i).hasCertainly (.initialized id) =
      s.path.hasCertainly (.initialized id) := by
    rw [Bool.eq_iff_iff, Path.hasCertainly_record]
    exact or_iff_right (Ne.symm h)
  simp only [isInitialized, hsame]
  rfl

theorem isInitialized_record_self (id : VariableId) :
    ({ s with path := s.path.record (.initialized id) } : AnalysisState).isInitialized id = true := by
  have hself : (s.path.record (.initialized id)).hasCertainly (.initialized id) = true :=
    (Path.hasCertainly_record _ _ _).mpr (.inl rfl)
  simp [isInitialized, hself]

theorem Valid.isInitialized_declaring_self (hv : s.Valid a₀) (stmt : LetStmt) (t : Ty)
    (isDeferred : Bool) :
    (s.declaring stmt t isDeferred).isInitialized s.scope.count = !isDeferred := by
  cases isDeferred with
  | false => exact isInitialized_record_self _
  | true =>
      have hnot : s.path.hasCertainly (.initialized s.scope.count) = false := by
        by_contra h
        exact Nat.lt_irrefl _ (hv.initialized_lt _ (by simpa using h))
      simp [declaring, isInitialized, isDeferred, hnot]

theorem isInitialized_declaring_of_ne (stmt : LetStmt) (t : Ty) (isDeferred : Bool)
    {id : VariableId} (h : id ≠ s.scope.count) :
    (s.declaring stmt t isDeferred).isInitialized id = s.isInitialized id := by
  cases isDeferred with
  | false => exact isInitialized_record _ id (by simpa using Ne.symm h)
  | true =>
      have hid : (s.scope.count == id) = false := by simpa using Ne.symm h
      simp [declaring, isInitialized, AnalysisState.isDeferred, hid]

theorem Valid.record (hv : s.Valid a₀) {i : Incident}
    (hi : ∀ id, i = .initialized id → id < s.scope.count) :
    ({ s with path := s.path.record i } : AnalysisState).Valid a₀ :=
  { hv with
    initialized_lt := fun id hid => by
      rcases (Path.hasCertainly_record _ _ _).mp hid with heq | hold
      · exact hi id heq.symm
      · exact hv.initialized_lt id hold }

theorem Valid.declaring (hv : s.Valid a₀) (stmt : LetStmt) (ht : t.mentionsError = false)
    (isDeferred : Bool) : (s.declaring stmt t isDeferred).Valid a₀ where
  edits := by
    rw [body_declaring]
    exact hv.edits
  ids_nodup := by
    rw [scope_declaring]
    refine List.nodup_cons.mpr ⟨fun hmem => ?_, hv.ids_nodup⟩
    exact Nat.lt_irrefl _ (hv.ids_lt _ hmem)
  ids_lt id hid := by
    rw [scope_declaring] at hid ⊢
    rcases List.mem_cons.mp hid with rfl | hid
    · exact Nat.lt_succ_self _
    · exact Nat.lt_succ_of_lt (hv.ids_lt id hid)
  deferred_lt b hb := by
    rw [scope_declaring]
    cases isDeferred with
    | false => exact Nat.lt_succ_of_lt (hv.deferred_lt b hb)
    | true =>
        rcases List.mem_append.mp hb with hb | hb
        · exact Nat.lt_succ_of_lt (hv.deferred_lt b hb)
        · obtain rfl := List.mem_singleton.mp hb
          exact Nat.lt_succ_self _
  initialized_lt id hid := by
    rw [scope_declaring]
    cases isDeferred with
    | true => exact Nat.lt_succ_of_lt (hv.initialized_lt id hid)
    | false =>
        rcases (Path.hasCertainly_record _ _ _).mp hid with heq | hold
        · cases heq
          exact Nat.lt_succ_self _
        · exact Nat.lt_succ_of_lt (hv.initialized_lt id hold)
  base_le c hc := by
    rw [scope_declaring] at hc ⊢
    exact hv.base_le c hc
  mentionsError_eq id u h := by
    rw [scope_declaring] at h
    rcases Scope.binds_cons.mp h with hnew | hold
    · obtain ⟨entry, hentry, rfl, rfl⟩ := Scope.binds_singleton.mp hnew
      rcases List.mem_cons.mp hentry with rfl | hentry
      · exact ht
      · exact hv.mentionsError_eq _ _
          (Scope.binds_cons.mpr (.inl (Scope.binds_singleton.mpr ⟨entry, hentry, rfl, rfl⟩)))
    · exact hv.mentionsError_eq _ _ (Scope.binds_cons.mpr (.inr hold))
  plain := by
    rw [body_declaring]
    exact hv.plain

end AnalysisState

/-! ### States between statements -/

/-- A state between statements, where the variables of the table are declared. -/
structure AnalysisState.Between (a₀ : Arena) (L : Locals) (s : AnalysisState) : Prop where
  valid : s.Valid a₀
  outer_eq : s.scope.outer = []
  closures_eq : s.scope.closures = []
  bound : ∀ entry ∈ s.scope.innermost, L entry.2.id =
    some ⟨entry.2.type, entry.2.isMutable, s.isInitialized entry.2.id⟩
  exists_bound : ∀ id v, L id = some v → ∃ entry ∈ s.scope.innermost, entry.2.id = id

namespace AnalysisState.Between

variable {a₀ : Arena} {s s' : AnalysisState} {W : Slot → Prop}

theorem mem_innermost_iff (h : s.Between a₀ L) {id : VariableId} {t : Ty} :
    Scope.Binds s.scope.frames id t ↔ ∃ entry ∈ s.scope.innermost,
      entry.2.id = id ∧ entry.2.type = t := by
  rw [Scope.frames, h.outer_eq, Scope.binds_singleton]

theorem readable_eq (h : s.Between a₀ L) : s.readable = L.context := by
  funext id t
  refine propext ?_
  rw [readable, h.mem_innermost_iff]
  constructor
  · rintro ⟨⟨entry, hentry, rfl, rfl⟩, hi⟩
    exact ⟨_, h.bound entry hentry, rfl, hi⟩
  · rintro ⟨v, hv, rfl, hvalue⟩
    obtain ⟨entry, hentry, rfl⟩ := h.exists_bound id v hv
    obtain rfl := Option.some.inj ((h.bound entry hentry).symm.trans hv)
    exact ⟨⟨entry, hentry, rfl, rfl⟩, hvalue⟩

theorem not_declared (h : s.Between a₀ L) {id : VariableId} (hid : s.scope.count ≤ id) :
    L id = none := by
  cases hL : L id with
  | none => rfl
  | some v =>
      obtain ⟨entry, hentry, rfl⟩ := h.exists_bound id v hL
      have hmem : entry.2.id ∈ Scope.idsOf s.scope.frames := by
        refine Scope.mem_idsOf_of_binds (t := entry.2.type) (h.mem_innermost_iff.mpr ?_)
        exact ⟨entry, hentry, rfl, rfl⟩
      exact absurd (h.valid.ids_lt _ hmem) (Nat.not_lt_of_le hid)

/-- Analysing expressions declares nothing and gives no variable a value. -/
theorem progress (h : s.Between a₀ L) (hp : s.Progress W s') (hv : s'.Valid a₀) :
    s'.Between a₀ L where
  valid := hv
  outer_eq := hp.scope.outer_eq.trans h.outer_eq
  closures_eq := by
    have hclosures := hp.scope.closures
    rw [h.closures_eq] at hclosures
    cases hc : s'.scope.closures with
    | nil => rfl
    | cons c cs =>
        rw [hc] at hclosures
        cases hclosures
  bound entry hentry := by
    rw [hp.scope.innermost_eq] at hentry
    rw [hp.isInitialized_eq]
    exact h.bound entry hentry
  exists_bound id v hid := by
    rw [hp.scope.innermost_eq]
    exact h.exists_bound id v hid

theorem of_resolve (h : s.Between a₀ L) {name : String} {b : Binding}
    (hb : (s.scope.resolve name).1 = some b) :
    L b.id = some ⟨b.type, b.isMutable, s.isInitialized b.id⟩ ∧ (s.scope.resolve name).2 = s.scope := by
  unfold Scope.resolve at hb ⊢
  split at hb
  next => cases hb
  next hfound =>
    cases hb
    obtain ⟨inner, f, outer, hframes, -, hmem⟩ := Scope.exists_of_find? hfound
    have hf : f = s.scope.innermost := by
      have : f ∈ s.scope.frames := by simp [hframes]
      simpa [Scope.frames, h.outer_eq] using this
    refine ⟨h.bound _ (hf ▸ hmem), ?_⟩
    rw [h.closures_eq]
    cases hs : s.scope
    have := h.closures_eq
    simp_all

theorem declaring (h : s.Between a₀ L) (stmt : LetStmt) {t : Ty} (ht : t.mentionsError = false)
    (isDeferred : Bool) : (s.declaring stmt t isDeferred).Between a₀
      (L.set s.scope.count ⟨t, stmt.isMutable, !isDeferred⟩) where
  valid := h.valid.declaring stmt ht isDeferred
  outer_eq := by
    rw [scope_declaring]
    exact h.outer_eq
  closures_eq := by
    rw [scope_declaring]
    exact h.closures_eq
  bound entry hentry := by
    rw [scope_declaring] at hentry
    rcases List.mem_cons.mp hentry with rfl | hentry
    · rw [Locals.set_self, h.valid.isInitialized_declaring_self]
    · have hold := h.bound entry hentry
      have hne : entry.2.id ≠ s.scope.count := by
        intro heq
        rw [heq, h.not_declared (Nat.le_refl _)] at hold
        cases hold
      rw [Locals.set_of_ne _ hne, isInitialized_declaring_of_ne _ _ _ hne, hold]
  exists_bound id v hid := by
    rw [scope_declaring]
    by_cases heq : id = s.scope.count
    · exact ⟨_, List.mem_cons_self, heq.symm⟩
    · rw [Locals.set_of_ne _ heq] at hid
      obtain ⟨entry, hentry, hid⟩ := h.exists_bound id v hid
      exact ⟨entry, List.mem_cons_of_mem _ hentry, hid⟩

theorem initializing (h : s.Between a₀ L) {id : VariableId} {v : Variable} (hv : L id = some v) :
    ({ s with path := s.path.record (.initialized id) } : AnalysisState).Between a₀
      (L.set id { v with hasValue := true }) where
  valid := h.valid.record fun id' hid' => by
    cases hid'
    by_contra hge
    rw [h.not_declared (Nat.le_of_not_lt hge)] at hv
    cases hv
  outer_eq := h.outer_eq
  closures_eq := h.closures_eq
  bound entry hentry := by
    have hold := h.bound entry hentry
    by_cases heq : entry.2.id = id
    · subst heq
      obtain rfl := Option.some.inj (hold.symm.trans hv)
      rw [Locals.set_self, isInitialized_record_self]
    · rw [Locals.set_of_ne _ heq, isInitialized_record _ _ (by simpa using Ne.symm heq), hold]
  exists_bound id' v' hid' := by
    by_cases heq : id' = id
    · subst heq
      exact h.exists_bound id' v hv
    · rw [Locals.set_of_ne _ heq] at hid'
      exact h.exists_bound id' v' hid'

/-- A record of something other than an initial value changes nothing. -/
theorem recording (h : s.Between a₀ L) {i : Incident} (hi : ∀ id, i ≠ .initialized id) :
    ({ s with path := s.path.record i } : AnalysisState).Between a₀ L where
  valid := h.valid.record fun id hid => absurd hid (hi id)
  outer_eq := h.outer_eq
  closures_eq := h.closures_eq
  bound entry hentry := by
    rw [isInitialized_record _ _ (hi _)]
    exact h.bound entry hentry
  exists_bound := h.exists_bound

end AnalysisState.Between

end Boxlang
