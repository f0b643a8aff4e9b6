import Boxlang.Proofs.Analysis.Progress
import Boxlang.Proofs.Elaboration.Judgement

/-!
# What may be read, and what closures note

The variables in scope that have a value are the context in which an expression is
analysed (`AnalysisState.readable`).  While an expression is read, every open
closure notes exactly those of them that are read and bound outside of it
(`AnalysisState.Notes`).
-/

namespace Boxlang

namespace Scope

def Binds (frames : List Frame) (id : VariableId) (t : Ty) : Prop :=
  ∃ f ∈ frames, ∃ entry ∈ f, entry.2.id = id ∧ entry.2.type = t

def idsOf (frames : List Frame) : List VariableId :=
  frames.flatten.map (·.2.id)

theorem mem_idsOf_of_binds {frames : List Frame} {id : VariableId} {t : Ty}
    (h : Binds frames id t) : id ∈ idsOf frames := by
  obtain ⟨f, hf, entry, hentry, rfl, -⟩ := h
  exact List.mem_map.mpr ⟨entry, List.mem_flatten.mpr ⟨f, hf, hentry⟩, rfl⟩

theorem binds_cons {f : Frame} {frames : List Frame} {id : VariableId} {t : Ty} :
    Binds (f :: frames) id t ↔ Binds [f] id t ∨ Binds frames id t := by
  simp [Binds]

theorem exists_of_find? {name : String} {frames : List Frame} {depth : Nat} {b : Binding}
    (h : find? name frames = some (depth, b)) :
    ∃ inner f outer, frames = inner ++ f :: outer ∧ outer.length = depth ∧ (name, b) ∈ f := by
  induction frames with
  | nil => simp [find?] at h
  | cons f fs ih =>
      rw [find?] at h
      cases hl : f.lookup name with
      | some b' =>
          obtain ⟨rfl, rfl⟩ : fs.length = depth ∧ b' = b := by simpa [hl] using h
          obtain ⟨l₁, l₂, hf, -⟩ := List.lookup_eq_some_iff.mp hl
          exact ⟨[], f, fs, rfl, rfl, by simp [hf]⟩
      | none =>
          obtain ⟨inner, g, outer, rfl, hlen, hmem⟩ := ih (by simpa [hl] using h)
          exact ⟨f :: inner, g, outer, rfl, hlen, hmem⟩

theorem binds_of_resolve {s : Scope} {name : String} {b : Binding}
    (h : (s.resolve name).1 = some b) : Binds s.frames b.id b.type := by
  unfold resolve at h
  split at h
  next => cases h
  next hfound =>
    cases h
    obtain ⟨inner, f, outer, hframes, -, hmem⟩ := exists_of_find? hfound
    exact ⟨f, by simp [hframes], (name, b), hmem, rfl, rfl⟩

/-- Where ids are unique, a name bound within `base` scopes is bound only there. -/
theorem lt_iff_binds_drop {name : String} {frames : List Frame} {depth base : Nat} {b : Binding}
    (h : find? name frames = some (depth, b)) (hnodup : (idsOf frames).Nodup) :
    depth < base ↔ ∃ t, Binds (frames.drop (frames.length - base)) b.id t := by
  obtain ⟨inner, f, outer, rfl, rfl, hmem⟩ := exists_of_find? h
  constructor
  · intro hlt
    refine ⟨b.type, f, ?_, (name, b), hmem, rfl, rfl⟩
    rw [List.drop_append_of_le_length (by simp; omega)]
    simp
  · rintro ⟨t, hbinds⟩
    by_contra hge
    -- The binding that was found is in one of the scopes that are dropped.
    let n := (inner ++ f :: outer).length - base
    have hn : inner.length + 1 ≤ n := by
      simp only [n, List.length_append, List.length_cons]
      omega
    have htake : f ∈ (inner ++ f :: outer).take n := by
      rw [List.take_append, List.mem_append]
      right
      obtain ⟨m, hm⟩ : ∃ m, n - inner.length = m + 1 := ⟨n - inner.length - 1, by omega⟩
      simp [hm]
    have hin : b.id ∈ idsOf ((inner ++ f :: outer).take n) :=
      List.mem_map.mpr ⟨(name, b), List.mem_flatten.mpr ⟨f, htake, hmem⟩, rfl⟩
    have hsplit : idsOf (inner ++ f :: outer) =
        idsOf ((inner ++ f :: outer).take n) ++ idsOf ((inner ++ f :: outer).drop n) := by
      unfold idsOf
      rw [← List.map_append, ← List.flatten_append, List.take_append_drop]
    rw [hsplit] at hnodup
    exact (List.nodup_append.mp hnodup).2.2 _ hin _ (mem_idsOf_of_binds hbinds) rfl

/-! ### Parameters of closures -/

theorem binds_singleton {f : Frame} {id : VariableId} {t : Ty} :
    Binds [f] id t ↔ ∃ entry ∈ f, entry.2.id = id ∧ entry.2.type = t := by
  simp [Binds]

theorem binds_reverse (f : Frame) {id : VariableId} {t : Ty} :
    Binds [f.reverse] id t ↔ Binds [f] id t := by
  simp [Binds]

theorem binds_paramFrame {n : Nat} {params : List (String × Ty)} {id : VariableId} {t : Ty} :
    Binds [paramFrame n params] id t ↔
      (id, t) ∈ (List.range' n params.length).zip (params.map (·.2)) := by
  induction params generalizing n with
  | nil => simp [Binds, paramFrame]
  | cons q params ih =>
      have hcons : Binds [paramFrame n (q :: params)] id t ↔
          (n = id ∧ q.2 = t) ∨ Binds [paramFrame (n + 1) params] id t := by
        simp only [binds_singleton, paramFrame_cons, List.mem_cons, or_and_right, exists_or,
          exists_eq_left]
      rw [hcons, ih]
      simp [List.range'_succ, eq_comm]

theorem map_id_paramFrame (n : Nat) (params : List (String × Ty)) :
    (paramFrame n params).map (·.2.id) = List.range' n params.length := by
  induction params generalizing n with
  | nil => rfl
  | cons q params ih => simp [paramFrame_cons, ih, List.range'_succ]

theorem idsOf_ofSignature (f : Signature) :
    idsOf (ofSignature f).frames = (List.range' 0 f.params.length).reverse := by
  simp [ofSignature_eq, declareAll_eq, frames, idsOf, List.map_reverse, map_id_paramFrame]

end Scope

namespace AnalysisState

def readable (s : AnalysisState) : Context := fun id t =>
  Scope.Binds s.scope.frames id t ∧ s.isInitialized id = true

/-- Whether a variable may be read that is bound within the outermost `base` scopes. -/
def OuterReadable (s : AnalysisState) (base : Nat) (id : VariableId) : Prop :=
  ∃ t, Scope.Binds (s.scope.frames.drop (s.scope.frames.length - base)) id t ∧
    s.isInitialized id = true

/-- What holds of every state while the body with the nodes of `a₀` is analysed without errors. -/
structure Valid (a₀ : Arena) (s : AnalysisState) : Prop where
  edits : Arena.Edits (· < a₀.size) a₀ s.body.arena
  ids_nodup : (Scope.idsOf s.scope.frames).Nodup
  ids_lt : ∀ id ∈ Scope.idsOf s.scope.frames, id < s.scope.count
  deferred_lt : ∀ b ∈ s.deferred, b.id < s.scope.count
  initialized_lt : ∀ id, s.path.hasCertainly (.initialized id) = true → id < s.scope.count
  base_le : ∀ c ∈ s.scope.closures, c.base ≤ s.scope.frames.length
  mentionsError_eq : ∀ id t, Scope.Binds s.scope.frames id t → t.mentionsError = false
  /-- Nodes that were moved out of a slot of `a₀` are not conversions. -/
  plain : ∀ x, a₀.size ≤ x → ¬ (s.body.arena.get x).IsConversion

end AnalysisState

/--
What a closure notes while variables are read: it keeps what it captured and adds,
once each, the variables that are read and bound outside of it.
-/
structure OpenClosure.Notes (s : AnalysisState) (reads : VariableId → Prop)
    (c c' : OpenClosure) : Prop where
  base_eq : c'.base = c.base
  subset : c.captures ⊆ c'.captures
  nodup : c.captures.Nodup → c'.captures.Nodup
  read_of_mem : ∀ id ∈ c'.captures, id ∈ c.captures ∨ reads id ∧ s.OuterReadable c.base id
  mem_of_read : ∀ id, reads id → s.OuterReadable c.base id → id ∈ c'.captures

def AnalysisState.Notes (s : AnalysisState) (reads : VariableId → Prop) (s' : AnalysisState) : Prop :=
  List.Forall₂ (OpenClosure.Notes s reads) s.scope.closures s'.scope.closures

namespace AnalysisState

variable {W : Slot → Prop} {s s' s'' : AnalysisState} {a₀ : Arena}
  {reads reads' : VariableId → Prop}

/-! ### What progress leaves alone -/

theorem Progress.readable_eq (h : s.Progress W s') : s'.readable = s.readable := by
  funext id t
  simp only [readable, h.scope.frames_eq, h.isInitialized_eq]

theorem Progress.outerReadable_iff (h : s.Progress W s') (base : Nat) (id : VariableId) :
    s'.OuterReadable base id ↔ s.OuterReadable base id := by
  simp only [OuterReadable, h.scope.frames_eq, h.isInitialized_eq]

theorem forall₂_base_le {n : Nat} {cs cs' : List OpenClosure}
    (h : List.Forall₂ OpenClosure.Extends cs cs') (hcs : ∀ c ∈ cs, c.base ≤ n) :
    ∀ c ∈ cs', c.base ≤ n := by
  induction h with
  | nil => simp
  | cons hc _ ih =>
      intro c hmem
      rcases List.mem_cons.mp hmem with rfl | hmem
      · rw [hc.base_eq]
        exact hcs _ List.mem_cons_self
      · exact ih (fun c hc => hcs c (List.mem_cons_of_mem _ hc)) c hmem

theorem Valid.progress (hv : s.Valid a₀) (h : s.Progress W s')
    (hW : ∀ slot, W slot → slot < a₀.size)
    (hplain : ∀ x, a₀.size ≤ x → ¬ (s'.body.arena.get x).IsConversion) : s'.Valid a₀ where
  edits := hv.edits.trans (h.arena.mono hW)
  ids_nodup := h.scope.frames_eq ▸ hv.ids_nodup
  ids_lt id hid := by
    rw [h.scope.frames_eq] at hid
    exact Nat.lt_of_lt_of_le (hv.ids_lt id hid) h.scope.count_le
  deferred_lt b hb := by
    rw [h.deferred_eq] at hb
    exact Nat.lt_of_lt_of_le (hv.deferred_lt b hb) h.scope.count_le
  initialized_lt id hid := by
    rw [h.path_eq] at hid
    exact Nat.lt_of_lt_of_le (hv.initialized_lt id hid) h.scope.count_le
  base_le := by
    rw [h.scope.frames_eq]
    exact forall₂_base_le h.scope.closures hv.base_le
  mentionsError_eq id t ht := by
    rw [h.scope.frames_eq] at ht
    exact hv.mentionsError_eq id t ht
  plain := hplain

theorem Valid.holdsNodes (hv : s.Valid a₀) : s.body.arena.HoldsNodesOf a₀ :=
  (Arena.HoldsNodesOf.refl a₀).edits hv.edits fun _ h => h

theorem Valid.lt_of_readable (hv : s.Valid a₀) {id : VariableId} {t : Ty} (h : s.readable id t) :
    id < s.scope.count :=
  hv.ids_lt id (Scope.mem_idsOf_of_binds h.1)

/-! ### Notes -/

theorem Notes.refl (s : AnalysisState) : s.Notes (fun _ => False) s := by
  unfold Notes
  induction s.scope.closures with
  | nil => exact .nil
  | cons c cs ih => exact .cons ⟨rfl, fun _ h => h, id, fun _ h => .inl h, by simp⟩ ih

theorem Notes.congr (h : s.Notes reads s') (heq : ∀ id, reads' id ↔ reads id) :
    s.Notes reads' s' := by
  obtain rfl : reads' = reads := funext fun id => propext (heq id)
  exact h

theorem Notes.trans (h : s.Notes reads s') (hp : s.Progress W s') (h' : s'.Notes reads' s'') :
    s.Notes (fun id => reads id ∨ reads' id) s'' := by
  have hout (base : Nat) (id : VariableId) := hp.outerReadable_iff base id
  unfold Notes at h h' ⊢
  clear hp
  generalize s.scope.closures = cs at h ⊢
  generalize s'.scope.closures = cs' at h h'
  generalize s''.scope.closures = cs'' at h' ⊢
  induction h generalizing cs'' with
  | nil =>
      cases h'
      exact .nil
  | @cons c c' cs cs' hc _ ih =>
      cases h' with
      | cons hc' h' =>
          refine .cons ⟨hc'.base_eq.trans hc.base_eq, fun _ h => hc'.subset (hc.subset h),
            fun hn => hc'.nodup (hc.nodup hn), fun id hid => ?_, fun id hr ho => ?_⟩ (ih _ h')
          · rcases hc'.read_of_mem id hid with hid | ⟨hr, ho⟩
            · rcases hc.read_of_mem id hid with hid | ⟨hr, ho⟩
              · exact .inl hid
              · exact .inr ⟨.inl hr, ho⟩
            · rw [hc.base_eq, hout] at ho
              exact .inr ⟨.inr hr, ho⟩
          · rcases hr with hr | hr
            · exact hc'.subset (hc.mem_of_read id hr ho)
            · refine hc'.mem_of_read id hr ?_
              rwa [hc.base_eq, hout]

/-- Steps that leave closures alone note nothing. -/
theorem Notes.of_closures_eq (h : s.Notes reads s') (heq : s''.scope.closures = s'.scope.closures) :
    s.Notes reads s'' := by
  unfold Notes
  rw [heq]
  exact h

/-- Reading a variable that has a value is noted by the closures that it is bound outside of. -/
theorem notes_resolve (hv : s.Valid a₀) {name : String} {b : Binding}
    (h : (s.scope.resolve name).1 = some b) (hi : s.isInitialized b.id = true) :
    s.Notes (fun id => id = b.id) { s with scope := (s.scope.resolve name).2 } := by
  unfold Scope.resolve at h ⊢
  split at h
  next => cases h
  next depth b' hfound =>
    cases h
    have hlt (base : Nat) : depth < base ↔ s.OuterReadable base b.id := by
      rw [Scope.lt_iff_binds_drop hfound hv.ids_nodup]
      simp [OuterReadable, hi]
    unfold Notes
    dsimp only
    induction s.scope.closures with
    | nil => exact .nil
    | cons c cs ih =>
        refine .cons ?_ ih
        unfold Scope.OpenClosure.noteRead
        dsimp only
        split
        next hnote =>
          obtain ⟨hdepth, hnew⟩ : depth < c.base ∧ b.id ∉ c.captures := by simpa using hnote
          refine ⟨rfl, List.subset_append_left _ _, fun hn => ?_, fun id hid => ?_,
            fun id hr _ => ?_⟩
          · refine List.nodup_append.mpr ⟨hn, by simp, fun a ha b' hb' heq => ?_⟩
            exact hnew (List.mem_singleton.mp hb' ▸ heq ▸ ha)
          · rcases List.mem_append.mp hid with hid | hid
            · exact .inl hid
            · obtain rfl := List.mem_singleton.mp hid
              exact .inr ⟨rfl, (hlt _).mp hdepth⟩
          · exact List.mem_append_right _ (by simp [hr])
        next hnote =>
          refine ⟨rfl, fun _ h => h, id, fun _ h => .inl h, fun id hr ho => ?_⟩
          subst hr
          have hdepth := (hlt _).mpr ho
          simpa [hdepth] using hnote

/-! ### Inside a closure -/

def enter (s : AnalysisState) (params : List (String × Ty)) : AnalysisState :=
  { s with scope := s.scope.enterClosure.declareAll params }

def leave (s : AnalysisState) : AnalysisState :=
  { s with scope := s.scope.exitClosure.2 }

variable {params : List (String × Ty)}

@[simp]
theorem frames_enter : (s.enter params).scope.frames =
    (Scope.paramFrame s.scope.count params).reverse :: s.scope.frames := by
  simp [enter, Scope.declareAll_eq, Scope.enterClosure, Scope.push, Scope.frames]

@[simp]
theorem count_enter : (s.enter params).scope.count = s.scope.count + params.length := by
  simp [enter, Scope.declareAll_eq, Scope.enterClosure, Scope.push]

/-- The parameters of a closure are numbered from the next number on. -/
theorem idsOf_frames_enter : Scope.idsOf (s.enter params).scope.frames =
    (List.range' s.scope.count params.length).reverse ++ Scope.idsOf s.scope.frames := by
  rw [frames_enter, Scope.idsOf, List.flatten_cons, List.map_append, List.map_reverse,
    Scope.map_id_paramFrame]
  rfl

theorem idsOf_enter_nodup (hnodup : (Scope.idsOf s.scope.frames).Nodup)
    (hlt : ∀ id ∈ Scope.idsOf s.scope.frames, id < s.scope.count) :
    (Scope.idsOf (s.enter params).scope.frames).Nodup := by
  rw [idsOf_frames_enter]
  refine List.nodup_append.mpr
    ⟨List.nodup_reverse.mpr List.nodup_range', hnodup, fun id hid id' hid' => ?_⟩
  have hge := (List.mem_range'_1.mp (List.mem_reverse.mp hid)).1
  exact Nat.ne_of_gt (Nat.lt_of_lt_of_le (hlt id' hid') hge)

theorem idsOf_enter_lt (hlt : ∀ id ∈ Scope.idsOf s.scope.frames, id < s.scope.count) :
    ∀ id ∈ Scope.idsOf (s.enter params).scope.frames, id < (s.enter params).scope.count := by
  intro id hid
  rw [idsOf_frames_enter] at hid
  rw [count_enter]
  rcases List.mem_append.mp hid with hid | hid
  · exact (List.mem_range'_1.mp (List.mem_reverse.mp hid)).2
  · exact Nat.lt_of_lt_of_le (hlt id hid) (Nat.le_add_right _ _)

@[simp]
theorem closures_enter : (s.enter params).scope.closures =
    { base := s.scope.frames.length } :: s.scope.closures := by
  simp [enter, Scope.declareAll_eq, Scope.enterClosure]

theorem isInitialized_enter (id : VariableId) :
    (s.enter params).isInitialized id = s.isInitialized id := rfl

theorem Valid.isInitialized_of_le (hv : s.Valid a₀) {id : VariableId} (h : s.scope.count ≤ id) :
    s.isInitialized id = true := by
  have hnot : s.isDeferred id = false := by
    simp only [isDeferred, List.any_eq_false, beq_iff_eq]
    intro b hb heq
    exact Nat.ne_of_lt (Nat.lt_of_lt_of_le (hv.deferred_lt b hb) h) heq
  simp [isInitialized, hnot]

theorem Valid.enter (hv : s.Valid a₀) (hparams : ∀ q ∈ params, q.2.mentionsError = false) :
    (s.enter params).Valid a₀ where
  edits := hv.edits
  ids_nodup := idsOf_enter_nodup hv.ids_nodup hv.ids_lt
  ids_lt := idsOf_enter_lt hv.ids_lt
  deferred_lt b hb := by
    rw [count_enter]
    exact Nat.lt_of_lt_of_le (hv.deferred_lt b hb) (Nat.le_add_right _ _)
  initialized_lt id hid := by
    rw [count_enter]
    exact Nat.lt_of_lt_of_le (hv.initialized_lt id hid) (Nat.le_add_right _ _)
  base_le c hc := by
    rw [frames_enter, List.length_cons]
    rw [closures_enter] at hc
    rcases List.mem_cons.mp hc with rfl | hc
    · exact Nat.le_succ _
    · exact Nat.le_succ_of_le (hv.base_le c hc)
  mentionsError_eq id t h := by
    rw [frames_enter, Scope.binds_cons, Scope.binds_reverse, Scope.binds_paramFrame] at h
    rcases h with h | h
    · obtain ⟨q, hq, rfl⟩ := List.mem_map.mp (List.of_mem_zip h).2
      exact hparams q hq
    · exact hv.mentionsError_eq id t h
  plain := hv.plain

theorem readable_enter (hv : s.Valid a₀) {id : VariableId} {t : Ty} :
    (s.enter params).readable id t ↔
      (id, t) ∈ (List.range' s.scope.count params.length).zip (params.map (·.2)) ∨
        s.readable id t := by
  unfold readable
  rw [frames_enter, Scope.binds_cons, Scope.binds_reverse, Scope.binds_paramFrame,
    isInitialized_enter]
  constructor
  · rintro ⟨h | h, hi⟩
    · exact .inl h
    · exact .inr ⟨h, hi⟩
  · rintro (h | ⟨h, hi⟩)
    · have hge := (List.mem_range'_1.mp (List.of_mem_zip h).1).1
      exact ⟨.inl h, hv.isInitialized_of_le hge⟩
    · exact ⟨.inr h, hi⟩

theorem outerReadable_enter {base : Nat} (h : base ≤ s.scope.frames.length) (id : VariableId) :
    (s.enter params).OuterReadable base id ↔ s.OuterReadable base id := by
  have hdrop : (s.enter params).scope.frames.length - base =
      (s.scope.frames.length - base) + 1 := by
    rw [frames_enter, List.length_cons]
    omega
  unfold OuterReadable
  rw [hdrop, frames_enter, List.drop_succ_cons]
  rfl

theorem outerReadable_length {id : VariableId} :
    s.OuterReadable s.scope.frames.length id ↔ ∃ t, s.readable id t := by
  simp [OuterReadable, readable]

/-- What closures around a closure note inside of it is what they note where it stands. -/
theorem forall₂_notes_enter {cs cs' : List OpenClosure}
    (hcs : ∀ c ∈ cs, c.base ≤ s.scope.frames.length)
    (h : List.Forall₂ (OpenClosure.Notes (s.enter params) reads) cs cs') :
    List.Forall₂ (OpenClosure.Notes s reads) cs cs' := by
  induction h with
  | nil => exact .nil
  | @cons c c' cs cs' hc _ ih =>
      have heq (id : VariableId) : (s.enter params).OuterReadable c.base id ↔
          s.OuterReadable c.base id := outerReadable_enter (hcs c List.mem_cons_self) id
      refine .cons { hc with
        read_of_mem := fun id hid => ?_
        mem_of_read := fun id hr ho => hc.mem_of_read id hr ((heq id).mpr ho) }
        (ih fun c hc => hcs c (List.mem_cons_of_mem _ hc))
      rcases hc.read_of_mem id hid with hold | ⟨hr, ho⟩
      · exact .inl hold
      · exact .inr ⟨hr, (heq id).mp ho⟩

theorem Notes.leave (hv : s.Valid a₀) (h : (s.enter params).Notes reads s') :
    s.Notes reads s'.leave ∧ s'.scope.exitClosure.1.Nodup ∧
      (∀ id ∈ s'.scope.exitClosure.1, (∃ t, s.readable id t) ∧ reads id) ∧
      ∀ id t, s.readable id t → reads id → id ∈ s'.scope.exitClosure.1 := by
  unfold Notes at h
  rw [closures_enter] at h
  cases hcs : s'.scope.closures with
  | nil =>
      rw [hcs] at h
      cases h
  | cons c cs =>
      rw [hcs] at h
      cases h with
      | cons hc hrest =>
          have hself (id : VariableId) : (s.enter params).OuterReadable s.scope.frames.length id ↔
              ∃ t, s.readable id t := by
            rw [outerReadable_enter (Nat.le_refl _), outerReadable_length]
          simp only [AnalysisState.leave, Notes, Scope.exitClosure, hcs]
          refine ⟨forall₂_notes_enter hv.base_le hrest, hc.nodup List.nodup_nil,
            fun id hid => ?_, fun id t ht hr => ?_⟩
          · rcases hc.read_of_mem id hid with hnil | ⟨hr, ho⟩
            · cases hnil
            · exact ⟨(hself id).mp ho, hr⟩
          · exact hc.mem_of_read id hr ((hself id).mpr ⟨t, ht⟩)

end AnalysisState

end Boxlang
