import Boxlang.Proofs.Elaboration.Expr
import Boxlang.Proofs.Invariants.Expr
import Boxlang.Proofs.Names.Scoped

/-!
# Names are resolved where they stand

Every expression of a fresh body that is typed becomes scoped by the names of the
scope in which it is typed.  The operands of a node are typed in any order, some of
them twice and others not at all, so what is kept throughout is that each of them is
scoped, typed or not (`Arena.Placed`).
-/

namespace Boxlang

namespace Arena

variable {a₀ a b : Arena} {names : Names} {slot c : Slot} {W : Slot → Prop} {roots : List Slot}
  {k : Nat}

/--
A scoped expression that has no nodes but its own ones and those that were moved out
of the way, and has not been touched before it is typed.
-/
structure Placed (a₀ : Arena) (names : Names) (a : Arena) (slot : Slot) : Prop where
  isScoped : a.Scoped names slot
  within : ∀ x, a.Reaches slot x → a₀.Reaches slot x ∨ a₀.size ≤ x ∧ x < a.size
  untouched : (a.get slot).type? = none → a₀.Untouched a slot

namespace Placed

theorem of_untouched (hf : a₀.IsForest roots) (hk : a₀.Level roots k slot)
    (hun : ∀ slot < a₀.size, (a₀.get slot).type? = none) (h : a₀.Untouched a slot)
    (names : Names) : a₀.Placed names a slot where
  isScoped := (hf.scoped_of_untyped hun hk (Nat.le_add_right _ k) names).congr h
  within _ hx := .inl ((reaches_congr h).mp hx)
  untouched _ := h

/-- An expression is placed in every larger arena that agrees on its nodes. -/
theorem congr (h : a₀.Placed names a slot) (hab : ∀ x, a.Reaches slot x → b.get x = a.get x)
    (hsub : ∀ x, a₀.Reaches slot x → b.get x = a.get x) (hsize : a.size ≤ b.size) :
    a₀.Placed names b slot where
  isScoped := h.isScoped.congr hab
  within x hx := (h.within x ((reaches_congr hab).mp hx)).imp_right fun ⟨hge, hlt⟩ =>
    ⟨hge, Nat.lt_of_lt_of_le hlt hsize⟩
  untouched ht x hx := by
    rw [hab slot (.refl a slot)] at ht
    rw [hsub x hx, h.untouched ht x hx]

theorem edits (h : a₀.Placed names a slot) (hf : a₀.IsForest roots) (hk : a₀.Level roots k slot)
    (hab : Edits W a b) (hW : ∀ x, W x → x < a₀.size) (hle : a₀.size ≤ a.size)
    (hdisj : ∀ x, W x → ¬ a₀.Reaches slot x) : a₀.Placed names b slot := by
  have hlt := (isRegion_reaches hf.inRange (hf.lt_size_of_level hk)).lt
  have hkeep : ∀ x < a.size, ¬ W x → b.get x = a.get x := fun x hx hn =>
    hab.get_of_not (fun y hy => Nat.lt_of_lt_of_le (hW y hy) hle) hx hn
  refine h.congr (fun x hx => ?_) (fun x hx => ?_) hab.size_le
  · rcases h.within x hx with hin | ⟨hge, hxa⟩
    · exact hkeep x (Nat.lt_of_lt_of_le (hlt x hin) hle) fun hw => hdisj x hw hin
    · exact hkeep x hxa fun hw => Nat.not_lt_of_le hge (hW x hw)
  · exact hkeep x (Nat.lt_of_lt_of_le (hlt x hx) hle) fun hw => hdisj x hw hx

theorem convert (h : a₀.Placed names a slot) (hs : slot < a₀.size)
    (hlt : ∀ x, a₀.Reaches slot x → x < a₀.size) (hle : a₀.size ≤ a.size)
    (ht : (a.get slot).type?.isSome) (op : Conversion) (t : Ty) :
    a₀.Placed names (a.convert slot op t).2 slot := by
  have hsa : slot < a.size := Nat.lt_of_lt_of_le hs hle
  have hself := get_convert a hsa hsa op t
  rw [if_pos rfl] at hself
  have hfresh := get_convert_fresh a slot op t
  have hops (c : Slot) (hc : c ∈ (a.get slot).kind.operands) (x : Slot) (hx : a.Reaches c x) :
      (a.convert slot op t).2.get x = a.get x := by
    have hxa : x < a.size := by
      rcases h.within x (.head hc hx) with hin | ⟨-, hxa⟩
      · exact Nat.lt_of_lt_of_le (hlt x hin) hle
      · exact hxa
    rw [get_convert a hsa hxa, if_neg]
    rintro rfl
    exact h.isScoped.not_reaches_of_mem c hc hx
  have hmoved : (a.convert slot op t).2.Scoped names a.size := by
    refine .intro (by rw [hfresh]; exact h.isScoped.node) fun c hc => ?_
    rw [hfresh] at hc ⊢
    exact (h.isScoped.operands c hc).congr (hops c hc)
  refine ⟨.intro (fun _ => ⟨(h.isScoped.node ht).1, ?_⟩) fun c hc => ?_, fun x hx => ?_, fun hn => ?_⟩
  · rintro name id? hk
    rw [hself] at hk
    cases hk
  · rw [hself] at hc ⊢
    obtain rfl := List.mem_singleton.mp hc
    exact hmoved
  · rw [size_convert]
    rcases reaches_iff.mp hx with rfl | ⟨c, hc, hx⟩
    · exact .inl (.refl a₀ x)
    · rw [hself] at hc
      obtain rfl := List.mem_singleton.mp hc
      rcases reaches_iff.mp hx with rfl | ⟨c, hc, hx⟩
      · exact .inr ⟨hle, Nat.lt_succ_self _⟩
      · rw [hfresh] at hc
        exact (h.within x (.head hc ((reaches_congr (hops c hc)).mp hx))).imp_right
          fun ⟨hge, hlt⟩ => ⟨hge, Nat.lt_succ_of_lt hlt⟩
  · rw [hself] at hn
    cases hn

theorem node (ht : (a.get slot).type?.isSome) (hnodup : names.ids.Nodup)
    (hnamed : (a.get slot).kind.NamedIn names)
    (hops : (a.get slot).kind.operands = (a₀.get slot).kind.operands)
    (h : ∀ c ∈ (a₀.get slot).kind.operands,
      a₀.Placed ((a.get slot).kind.binders ++ names) a c) : a₀.Placed names a slot where
  isScoped := .intro (fun _ => ⟨hnodup, hnamed⟩) fun c hc => (h c (hops ▸ hc)).isScoped
  within x hx := by
    rcases reaches_iff.mp hx with rfl | ⟨c, hc, hx⟩
    · exact .inl (.refl a₀ x)
    · rw [hops] at hc
      exact ((h c hc).within x hx).imp_left (.head hc)
  untouched hn := by simp [hn] at ht

end Placed

end Arena

namespace AnalysisState

/-- What a state says of numbers of variables, at any time while the nodes of `a₀` are typed. -/
structure Numbered (a₀ : Arena) (s : AnalysisState) : Prop where
  edits : Arena.Edits (· < a₀.size) a₀ s.body.arena
  ids_nodup : s.scope.names.ids.Nodup
  ids_lt : ∀ id ∈ s.scope.names.ids, id < s.scope.count

/--
While the operands of the node in a slot are typed, each of them is placed under the
names in scope, and the node has no type yet.
-/
structure Naming (a₀ : Arena) (names : Names) (slot : Slot) (s : AnalysisState) : Prop where
  numbered : s.Numbered a₀
  names_eq : s.scope.names = names
  untyped : (s.body.arena.get slot).type? = none
  operands : ∀ c ∈ (a₀.get slot).kind.operands, a₀.Placed names s.body.arena c

variable {a₀ : Arena} {names : Names} {roots : List Slot} {slot c : Slot} {k : Nat}
  {s s' : AnalysisState} {W : Slot → Prop}

namespace Numbered

theorem progress (h : s.Numbered a₀) (hp : s.Progress W s') (hW : ∀ x, W x → x < a₀.size) :
    s'.Numbered a₀ where
  edits := h.edits.trans (hp.arena.mono hW)
  ids_nodup := hp.scope.names_eq ▸ h.ids_nodup
  ids_lt id hid := by
    rw [hp.scope.names_eq] at hid
    exact Nat.lt_of_lt_of_le (h.ids_lt id hid) hp.scope.count_le

theorem holdsNodes (h : s.Numbered a₀) : s.body.arena.HoldsNodesOf a₀ :=
  (Arena.HoldsNodesOf.refl a₀).edits h.edits fun _ h => h

theorem enter (h : s.Numbered a₀) (params : List (String × Ty)) :
    (s.enter params).Numbered a₀ where
  edits := h.edits
  ids_nodup := by
    have hnodup := h.ids_nodup
    have hlt := h.ids_lt
    rw [Scope.ids_names] at hnodup hlt ⊢
    exact idsOf_enter_nodup hnodup hlt
  ids_lt := by
    have hlt := h.ids_lt
    rw [Scope.ids_names] at hlt ⊢
    exact idsOf_enter_lt hlt

end Numbered

namespace Naming

variable (h : s.Naming a₀ names slot) (hf : a₀.IsForest roots) (hk : a₀.Level roots k slot)
include h hf hk

theorem operands_eq :
    (s.body.arena.get slot).kind.operands = (a₀.get slot).kind.operands :=
  Expr.operands_eq_of_bare_eq
    (h.numbered.holdsNodes.bare_eq (hf.lt_size_of_level hk) h.untyped)

/-- Something is done to the expression of one operand, which leaves it placed. -/
theorem progress (hc : c ∈ (a₀.get slot).kind.operands) (hp : s.Progress W s')
    (hW : ∀ x, W x → a₀.Reaches c x) (hplaced : a₀.Placed names s'.body.arena c) :
    s'.Naming a₀ names slot := by
  have hlevel := Arena.Level.child hk hc
  have hlt := (Arena.isRegion_reaches hf.inRange (hf.lt_size_of_level hlevel)).lt
  have hle := h.numbered.edits.size_le
  refine ⟨h.numbered.progress hp fun x hx => hlt x (hW x hx), hp.scope.names_eq.trans h.names_eq, ?_,
    fun c' hc' => ?_⟩
  · rw [hp.arena.get_of_not (fun x hx => Nat.lt_of_lt_of_le (hlt x (hW x hx)) hle)
      (Nat.lt_of_lt_of_le (hf.lt_size_of_level hk) hle)
      fun hw => hf.not_reaches_parent hk hc (hW slot hw)]
    exact h.untyped
  · by_cases heq : c' = c
    · exact heq ▸ hplaced
    · refine (h.operands c' hc').edits hf (.child hk hc') hp.arena (fun x hx => hlt x (hW x hx)) hle
        fun x hx hx' => heq ?_
      exact hf.eq_of_reaches (.child hk hc') hlevel hx' (hW x hx)

theorem placed_annotate {g : Expr → Expr}
    (hg : (s.body.arena.get slot).Annotated (g (s.body.arena.get slot))) :
    ∀ c ∈ (a₀.get slot).kind.operands, a₀.Placed names (s.body.arena.modify slot g) c := by
  intro c hc
  refine (h.operands c hc).edits (W := (· = slot)) hf (.child hk hc) (.annotate .refl rfl hg) ?_
    h.numbered.edits.size_le ?_
  · rintro x rfl
    exact hf.lt_size_of_level hk
  · rintro x rfl
    exact hf.not_reaches_parent hk hc

theorem annotate {f : ExprKind → ExprKind}
    (hkind : (f (s.body.arena.get slot).kind).bare = (s.body.arena.get slot).kind.bare) :
    (s.withArena (s.body.arena.modifyKind slot f)).Naming a₀ names slot := by
  have hsize := Nat.lt_of_lt_of_le (hf.lt_size_of_level hk) h.numbered.edits.size_le
  have hg := Expr.Annotated.withKind hkind
  refine ⟨h.numbered.progress (W := (· = slot)) (.of_edits (.annotate .refl rfl hg)) ?_, h.names_eq,
    ?_, h.placed_annotate hf hk hg⟩
  · rintro x rfl
    exact hf.lt_size_of_level hk
  · rw [arena_withArena, Arena.modifyKind, Arena.get_modify_self _ hsize]
    exact h.untyped

/-- The node gets its type, once it is resolved if it is a name. -/
theorem placed_setType {outer : Names} (hnodup : outer.ids.Nodup)
    (hnamed : (s.body.arena.get slot).kind.NamedIn outer)
    (hnames : (s.body.arena.get slot).kind.binders ++ outer = names) (t : Ty) :
    a₀.Placed outer (s.body.arena.setType slot t) slot := by
  have hsize := Nat.lt_of_lt_of_le (hf.lt_size_of_level hk) h.numbered.edits.size_le
  have hself : (s.body.arena.setType slot t).get slot =
      { s.body.arena.get slot with type? := some t } := Arena.get_modify_self _ hsize _
  refine .node (by rw [hself]; rfl) hnodup (by rwa [hself]) ?_ fun c hc => ?_
  · rw [hself]
    exact h.operands_eq hf hk
  · rw [hself, hnames]
    exact h.placed_annotate hf hk (.withType _ t) c hc

end Naming

end AnalysisState

/-! ### Nodes -/

namespace Analysis

open AnalysisState

variable {env : Environment} {a₀ : Arena} {roots : List Slot} {visit : Visit} {slot : Slot}
  {k : Nat} {names : Names} {s s' : AnalysisState} {t : Ty} {e? : Option Expectation}

/-- Typing the expression in a slot leaves it placed under the names in scope. -/
structure PlacesNames (env : Environment) (a₀ : Arena) (visit : Visit) (slot : Slot) : Prop where
  walks : VisitWalks a₀ (a₀.Reaches slot) env visit
  placed : ∀ {s s' : AnalysisState} {e? : Option Expectation} {t : Ty}, s.Numbered a₀ →
    a₀.Untouched s.body.arena slot → (visit slot e?).runIn env s = (.ok t, s') →
    a₀.Placed s.scope.names s'.body.arena slot ∧ (s'.body.arena.get slot).type?.isSome
  typed : ∀ {s : AnalysisState} {e? : Option Expectation} {t : Ty},
    (s.body.arena.get slot).type? = some t → (visit slot e?).runIn env s = (.ok t, s)

section Node

variable (hf : a₀.IsForest roots) (hk : a₀.Level roots k slot)
  (hv : ∀ c ∈ (a₀.get slot).kind.operands, PlacesNames env a₀ visit c)
include hf hk hv

/-- Operands, typed before or not, are typed and converted in place. -/
theorem visits_naming {c : Slot} (hc : c ∈ (a₀.get slot).kind.operands) :
    Visits env (Naming a₀ names slot) (fun _ => True) (fun _ => True) (fun _ _ => True) visit c where
  ok {s e? t s'} hs _ hrun := by
    have hlevel := Arena.Level.child hk hc
    have hlt := (Arena.isRegion_reaches hf.inRange (hf.lt_size_of_level hlevel)).lt
    obtain ⟨hs', htyped⟩ : Naming a₀ names slot s' ∧ (s'.body.arena.get c).type?.isSome := by
      cases ht : (s.body.arena.get c).type? with
      | some u =>
          rw [(hv c hc).typed ht] at hrun
          obtain rfl := (Prod.mk.inj hrun).2
          exact ⟨hs, by rw [ht]; rfl⟩
      | none =>
          have hu := (hs.operands c hc).untouched ht
          obtain ⟨hplaced, htyped⟩ := (hv c hc).placed hs.numbered hu hrun
          have hp := ((hv c hc).walks c (.refl a₀ c) e? s hs.numbered.holdsNodes).progress
          rw [hrun] at hp
          rw [hs.names_eq] at hplaced
          exact ⟨hs.progress hf hk hc hp (fun _ hx => hx) hplaced, htyped⟩
    refine ⟨hs', trivial, fun op u _ _ _ => hs'.progress hf hk hc (W := (· = c)) ?_ ?_ ?_⟩
    · exact .of_edits (.convert .refl rfl)
    · rintro x rfl
      exact .refl a₀ x
    · exact (hs'.operands c hc).convert (hf.lt_size_of_level hlevel) hlt
        hs'.numbered.edits.size_le htyped op u
  error _ _ _ := trivial

/-- All that is done to a node and its operands before the node is typed keeps them in place. -/
theorem stable_naming : Stable env (Naming a₀ names slot) (fun _ => True) (fun _ => True)
    (fun _ => True) (fun _ _ => True) visit slot (a₀.get slot).kind.operands where
  fails _ := trivial
  reports _ hs := ⟨⟨hs.numbered.edits, hs.numbered.ids_nodup, hs.numbered.ids_lt⟩, hs.names_eq,
    hs.untyped, hs.operands⟩
  visits _ hc := visits_naming hf hk hv hc
  arguments hs harguments := by
    refine ⟨?_, fun _ _ _ _ => trivial⟩
    rw [← hs.operands_eq hf hk]
    exact ExprKind.args_subset_operands harguments
  withTarget id hs := hs.annotate hf hk (ExprKind.bare_withTarget _ id)
  withGenericArguments types _ hs := hs.annotate hf hk (ExprKind.bare_withGenericArguments _ types)

variable (hun : ∀ slot < a₀.size, (a₀.get slot).type? = none) (hs : s.Numbered a₀)
  (hu : a₀.Untouched s.body.arena slot)
include hun hs hu

omit hv hs in
theorem untouched_operand {c : Slot} (hc : c ∈ (a₀.get slot).kind.operands) (names : Names) :
    a₀.Placed names s.body.arena c :=
  .of_untouched hf (.child hk hc) hun (fun x hx => hu x (.head hc hx)) names

omit hv in
theorem naming_start : s.Naming a₀ s.scope.names slot where
  numbered := hs
  names_eq := rfl
  untyped := by
    rw [hu slot (.refl a₀ slot)]
    exact hun slot (hf.lt_size_of_level hk)
  operands _ hc := untouched_operand hf hk hun hu hc _

omit hv in
/-- A name that is read stands for its innermost declaration. -/
theorem placed_analyseLocal {name : Ident} {id? : Option VariableId}
    (hkind : (a₀.get slot).kind = .localRef name id?)
    (hrun : (analyseLocal slot name).runIn env s = (.ok t, s')) :
    a₀.Placed s.scope.names (s'.body.arena.setType slot t) slot := by
  unfold analyseLocal at hrun
  rw [runIn_bind, runIn_resolveName] at hrun
  dsimp only at hrun
  split at hrun
  next => simp at hrun
  next b hb =>
    rw [runIn_bind, runIn_modifyKind] at hrun
    dsimp only at hrun
    rw [runIn_bind, runIn_get] at hrun
    dsimp only at hrun
    split at hrun
    · obtain ⟨rfl, rfl⟩ : b.type = t ∧ _ = s' := by simpa using hrun
      have hsize := Nat.lt_of_lt_of_le (hf.lt_size_of_level hk) hs.edits.size_le
      have hstart := naming_start hf hk hun hs hu
      have hnaming := hstart.annotate (f := (·.withVariable b.id)) hf hk
        (ExprKind.bare_withVariable _ b.id)
      have hself : (s.body.arena.modifyKind slot (·.withVariable b.id)).get slot =
          { s.body.arena.get slot with kind := .localRef name (some b.id) } := by
        rw [Arena.modifyKind, Arena.get_modify_self _ hsize, hu slot (.refl a₀ slot), hkind]
        rfl
      refine hnaming.placed_setType hf hk hs.ids_nodup ?_ ?_ b.type
      · rw [arena_withArena, hself]
        rintro name' id?' ⟨⟩
        exact ⟨b.id, rfl, Scope.lookup_names_of_resolve hb⟩
      · rw [arena_withArena, hself]
        rfl
    · rw [runIn_bind] at hrun
      simp at hrun

theorem placed_analyseClosure {literal : Closure} (hkind : (a₀.get slot).kind = .closure literal)
    (hrun : (analyseClosure visit slot literal).runIn env s = (.ok t, s')) :
    a₀.Placed s.scope.names (s'.body.arena.setType slot t) slot := by
  have hmem : literal.body ∈ (a₀.get slot).kind.operands := by simp [hkind, ExprKind.operands]
  rw [analyseClosure_eq] at hrun
  obtain ⟨params, s₁, hparams, hrest⟩ := runIn_bind_ok.mp hrun
  obtain ⟨ret, s₂, hret, hclosure⟩ := runIn_bind_ok.mp hrest
  have hlen := length_of_runIn_mapM_ok hparams
  obtain ⟨hs₁, -⟩ := runIn_mapM_ok_of_keeps
    (fun p _ s t s' hrun => runIn_resolveType_ok hrun) hparams
  obtain ⟨hs₂, -⟩ := runIn_resolveType_ok hret
  obtain rfl := hs₁.symm
  obtain rfl := hs₂.symm
  obtain ⟨u, s₃, hbody, rfl, rfl⟩ := runIn_closureAs_ok.mp hclosure
  let entered := s.enter (literal.named params)
  let ids := List.range' s.scope.count (literal.params.zip params).length
  let captures := s₃.scope.exitClosure.1
  have hentered : entered.Numbered a₀ := hs.enter (literal.named params)
  obtain ⟨hnaming, -⟩ := (ensures_expect (.trivial env) (.trivial env _) (fun _ => trivial)
    (visits_naming hf hk hv hmem) trivial).ok (naming_start hf hk hun hentered hu) hbody
  -- Typing the body does not change the node of the closure.
  have hnode : (s₃.body.arena.get slot).kind = .closure literal := by
    have hlt := (Arena.isRegion_reaches hf.inRange (hf.lt_size_of_level (.child hk hmem))).lt
    have hp := (walks_expectType hlt (hv _ hmem).walks (.refl a₀ _) ret entered
      hentered.holdsNodes).progress
    rw [hbody] at hp
    have hle := hs.edits.size_le
    rw [hp.arena.get_of_not (fun x hx => Nat.lt_of_lt_of_le (hlt x hx) hle)
      (Nat.lt_of_lt_of_le (hf.lt_size_of_level hk) hle) (hf.not_reaches_parent hk hmem)]
    exact (congrArg Expr.kind (hu slot (.refl a₀ slot))).trans hkind
  have hsize := Nat.lt_of_lt_of_le (hf.lt_size_of_level hk) hnaming.numbered.edits.size_le
  have hself : ((s₃.body.arena.modifyKind slot (·.withClosureVariables ids captures)).get slot).kind =
      (ExprKind.closure literal).withClosureVariables ids captures := by
    rw [Arena.modifyKind, Arena.get_modify_self _ hsize, hnode]
  have hids : ids.length = literal.params.length := by simp [ids, hlen]
  have hannotated := hnaming.annotate (f := (·.withClosureVariables ids captures)) hf hk <|
    ExprKind.bare_withClosureVariables _ _ _ fun now hnow => by
      obtain rfl := ExprKind.closure.inj (hnode.symm.trans hnow)
      exact hids
  refine hannotated.placed_setType hf hk hs.ids_nodup ?_ ?_ (.callable params ret)
  · rw [arena_withArena, hself]
    rintro name id? ⟨⟩
  · rw [arena_withArena, hself]
    exact (s.names_enter hlen captures).symm

theorem placed_nodeType (hrun : (nodeType visit slot (a₀.get slot) e?).runIn env s = (.ok t, s')) :
    a₀.Placed s.scope.names (s'.body.arena.setType slot t) slot := by
  by_cases hlocal : ∃ name id?, (a₀.get slot).kind = .localRef name id?
  · obtain ⟨name, id?, hkind⟩ := hlocal
    unfold nodeType at hrun
    rw [hkind] at hrun
    exact placed_analyseLocal hf hk hun hs hu hkind hrun
  by_cases hclosure : ∃ literal, (a₀.get slot).kind = .closure literal
  · obtain ⟨literal, hkind⟩ := hclosure
    unfold nodeType at hrun
    rw [hkind] at hrun
    exact placed_analyseClosure hf hk hv hun hs hu hkind hrun
  have hensures : Ensures env (Naming a₀ s.scope.names slot) (fun _ => True)
      (nodeType visit slot (a₀.get slot) e?) fun _ => True :=
    ensures_nodeType (.trivial env) (.trivial env _) (stable_naming hf hk hv) (by simp) (List.Subset.refl _)
      (fun _ _ _ _ => trivial) (fun name id? hkind => absurd ⟨name, id?, hkind⟩ hlocal)
      (fun literal hkind => absurd ⟨literal, hkind⟩ hclosure) fun _ _ => ⟨trivial, trivial⟩
  obtain ⟨hnaming, -⟩ := hensures.ok (naming_start hf hk hun hs hu) hrun
  have hbare := congrArg Expr.kind
    (hnaming.numbered.holdsNodes.bare_eq (hf.lt_size_of_level hk) hnaming.untyped)
  rw [Expr.kind_bare, Expr.kind_bare] at hbare
  refine hnaming.placed_setType hf hk hs.ids_nodup (fun name id? hkind => ?_) ?_ t
  · rw [hkind] at hbare
    cases hkind' : (a₀.get slot).kind <;> simp_all [ExprKind.bare]
  · rw [ExprKind.binders_eq_nil fun literal hkind => ?_, List.nil_append]
    rw [hkind] at hbare
    cases hkind' : (a₀.get slot).kind <;> simp_all [ExprKind.bare]

end Node

theorem placesNames_analyseNode (hf : a₀.IsForest roots) (hk : a₀.Level roots k slot)
    (hv : ∀ c ∈ (a₀.get slot).kind.operands, PlacesNames env a₀ visit c)
    (hwalks : VisitWalks a₀ (a₀.Reaches slot) env visit)
    (hun : ∀ slot < a₀.size, (a₀.get slot).type? = none) :
    PlacesNames env a₀ (analyseNode visit) slot where
  walks := walks_analyseNode (Arena.isRegion_reaches hf.inRange (hf.lt_size_of_level hk)) hwalks
  placed {s s' e? t} hs hu hrun := by
    have hslot := hf.lt_size_of_level hk
    obtain ⟨s₁, htype, rfl⟩ : ∃ s₁, (nodeType visit slot (a₀.get slot) e?).runIn env s = (.ok t, s₁) ∧
        s' = s₁.withArena (s₁.body.arena.setType slot t) := by
      rw [← hu slot (.refl a₀ slot)]
      rcases runIn_analyseNode_ok hrun with ⟨htyped, -⟩ | ⟨-, s₁, htype⟩
      · cases (hu slot (.refl a₀ slot) ▸ htyped).symm.trans (hun slot hslot)
      · exact ⟨s₁, htype⟩
    refine ⟨placed_nodeType hf hk hv hun hs hu htype, ?_⟩
    have hp := (walks_nodeType (Arena.isRegion_reaches hf.inRange hslot) hwalks (.refl a₀ slot) rfl e? s
      hs.holdsNodes).progress
    rw [htype] at hp
    have hsize := Nat.lt_of_lt_of_le hslot (Nat.le_trans hs.edits.size_le hp.arena.size_le)
    rw [arena_withArena, Arena.setType, Arena.get_modify_self _ hsize]
    rfl
  typed h := runIn_analyseNode_of_typed h

variable {body : Body}

theorem placesNames_analyseExprWithin (hb : body.IsFresh) {n : Nat}
    (hk : body.arena.Level (body.stmts.flatMap Stmt.slots) k slot) (hn : body.arena.size ≤ n + k) :
    PlacesNames env body.arena (analyseExprWithin n) slot := by
  have hf := hb.isForest
  induction n generalizing k slot with
  | zero =>
      have := hf.level_lt_size hk
      omega
  | succ n ih =>
      have hregion := Arena.isRegion_reaches hf.inRange (hf.lt_size_of_level hk)
      exact placesNames_analyseNode hf hk (fun c hc => ih (.child hk hc) (by omega))
        (walks_analyseExprWithin hregion n) hb.untyped

theorem placed_analyseExpr (hb : body.IsFresh) (hslot : slot ∈ body.stmts.flatMap Stmt.slots)
    (hs : s.Numbered body.arena) (hu : body.arena.Untouched s.body.arena slot)
    (hrun : (analyseExpr slot e?).runIn env s = (.ok t, s')) :
    body.arena.Placed s.scope.names s'.body.arena slot ∧ (s'.body.arena.get slot).type?.isSome := by
  unfold analyseExpr at hrun
  rw [runIn_bind, runIn_get] at hrun
  exact (placesNames_analyseExprWithin hb (.root hslot) hs.edits.size_le).placed hs hu hrun

end Analysis

end Boxlang
