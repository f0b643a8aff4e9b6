import Boxlang.Proofs.Flow.Valid

/-!
# Functions that grow

The four things that happen to an incomplete function keep it a `Draft`: an
instruction is added to its last block, its last block gets its terminator, a block
that is owed is started, and a label is set aside for a block.  A block that has no
terminator yet counts as one that leads nowhere.
-/

namespace Boxlang.Llvm

def openBlock (label : Label) (body : List Instr) : Block :=
  ⟨label, body, .unreachable⟩

variable {params : List Operand} {start start' : Label → Nat → Prop} {owed owed' : List Label}
  {blocks blocks' : List Block} {b : Block} {l l' : Label} {n : Nat} {body : List Instr}

@[simp]
theorem definedBy_append (before after : List Instr) :
    definedBy (before ++ after) = definedBy before ++ definedBy after :=
  List.filterMap_append

/-! ### Edges and registers of a list of blocks -/

theorem leads_append : Leads (blocks ++ [b]) l l' ↔
    Leads blocks l l' ∨ b.label = l ∧ l' ∈ b.exit.targets := by
  simp [Leads, or_and_right, exists_or]

@[simp]
theorem leads_append_openBlock {l₁ l₂ : Label} :
    Leads (blocks ++ [openBlock l body]) l₁ l₂ ↔ Leads blocks l₁ l₂ :=
  leads_append.trans (or_iff_left fun h => nomatch h.2)

theorem atEnd_append : AtEnd start (blocks ++ [b]) l n ↔
    AtEnd start blocks l n ∨ b.label = l ∧ n ∈ b.defs := by
  simp [AtEnd, or_and_right, exists_or, or_assoc]

/--
A block stays as it should be where more becomes known of the ends of blocks, nothing
more is assumed about it and those that follow, and control gets there as before.
-/
theorem Block.Ok.mono (h : b.Ok params start blocks)
    (hstart : ∀ l ∈ b.label :: b.exit.targets, ∀ n, start' l n ↔ start l n)
    (hend : ∀ l n, AtEnd start blocks l n → AtEnd start' blocks' l n)
    (hleads : ∀ l, Leads blocks' l b.label ↔ Leads blocks l b.label) :
    b.Ok params start' blocks' where
  uses before i after hbody o ho :=
    (h.uses before i after hbody o ho).mono fun n hn =>
      hn.imp_left (hstart _ List.mem_cons_self n).mpr
  apart n hn hassumed := h.apart n hn ((hstart _ List.mem_cons_self n).mp hassumed)
  exit_uses o ho := (h.exit_uses o ho).mono (hend _)
  leads l hl n hn := hend _ _ (h.leads l hl n ((hstart l (List.mem_cons_of_mem _ hl) n).mp hn))
  phis i hi dst type incoming hphi := by
    obtain ⟨hnodup, hlabels, huses⟩ := h.phis i hi dst type incoming hphi
    exact ⟨hnodup, fun l => (hlabels l).trans (hleads l).symm,
      fun e he => (huses e he).mono (hend e.2)⟩

theorem Block.Ok.openBlock (l : Label) : (openBlock l []).Ok params start blocks where
  uses before i after hbody := by simp [Llvm.openBlock] at hbody
  apart _ hn := absurd hn List.not_mem_nil
  exit_uses _ ho := absurd ho List.not_mem_nil
  leads _ hl := absurd hl List.not_mem_nil
  phis _ hi := absurd hi List.not_mem_nil

namespace Draft

/-- At the beginning of a function nothing is defined. -/
theorem initial (params : List Operand) :
    Draft params (fun _ _ => False) [] [openBlock .entry []] where
  entry_eq := rfl
  labels_nodup := by simp
  targets_mem b hb l hl := by
    obtain rfl := List.mem_singleton.mp hb
    cases hl
  defs_nodup := by simp [openBlock, Block.defs, definedBy]
  start_entry _ := id
  start_mem _ _ := False.elim
  start_defined _ _ := False.elim
  ok b hb := by
    obtain rfl := List.mem_singleton.mp hb
    exact .openBlock .entry

theorem perm (h : Draft params start owed blocks) (hperm : owed.Perm owed') :
    Draft params start owed' blocks where
  entry_eq := h.entry_eq
  labels_nodup := (hperm.append_left _).nodup_iff.mp h.labels_nodup
  targets_mem b hb l hl := (hperm.append_left _).mem_iff.mp (h.targets_mem b hb l hl)
  defs_nodup := h.defs_nodup
  start_entry := h.start_entry
  start_mem l n hn := (hperm.append_left _).mem_iff.mp (h.start_mem l n hn)
  start_defined := h.start_defined
  ok := h.ok

theorem atEnd_last (h : Draft params start owed (blocks ++ [b])) :
    AtEnd start (blocks ++ [b]) b.label n ↔ start b.label n ∨ n ∈ b.defs := by
  constructor
  · rintro (hstart | ⟨b', hb', hlabel, hdef⟩)
    · exact .inl hstart
    · obtain rfl := h.eq_of_label_eq hb' (List.mem_append_right _ List.mem_cons_self) hlabel
      exact .inr hdef
  · rintro (hstart | hdef)
    · exact .inl hstart
    · exact .inr ⟨b, List.mem_append_right _ List.mem_cons_self, rfl, hdef⟩

/-- All that is known anywhere was defined somewhere. -/
theorem mem_defs_of_atEnd (h : Draft params start owed blocks) (hn : AtEnd start blocks l n) :
    n ∈ blocks.flatMap Block.defs := by
  rcases hn with hstart | ⟨b, hb, -, hdef⟩
  · exact h.start_defined l n hstart
  · exact List.mem_flatMap.mpr ⟨b, hb, hdef⟩

section LastBlock

variable (h : Draft params start owed (blocks ++ [openBlock l body]))
include h

/-- The last block gets more instructions, or its terminator. -/
theorem replace {new : List Nat} (hlabel : b.label = l) (hdefs : b.defs = definedBy body ++ new)
    (hnew : new.Nodup) (hfresh : ∀ n ∈ new, n ∉ (blocks ++ [openBlock l body]).flatMap Block.defs)
    (htargets : ∀ t ∈ b.exit.targets, t ∈ owed)
    (hok : (openBlock l body).Ok params start (blocks ++ [b]) → b.Ok params start (blocks ++ [b])) :
    Draft params start owed (blocks ++ [b]) := by
  have hflat : (blocks ++ [b]).flatMap Block.defs =
      (blocks ++ [openBlock l body]).flatMap Block.defs ++ new := by
    simpa [Block.defs, openBlock] using hdefs
  have hlabels : (blocks ++ [b]).map (·.label) = (blocks ++ [openBlock l body]).map (·.label) := by
    simp [openBlock, hlabel]
  have hend (l' : Label) (n : Nat) (hn : AtEnd start (blocks ++ [openBlock l body]) l' n) :
      AtEnd start (blocks ++ [b]) l' n := by
    rw [atEnd_append] at hn ⊢
    refine hn.imp_right fun ⟨hl, hdef⟩ => ⟨hlabel.trans hl, ?_⟩
    rw [hdefs]
    exact List.mem_append_left _ hdef
  -- Control goes from the new block only to blocks that were not started.
  have hmono {b' : Block} (hb' : b' ∈ blocks ++ [openBlock l body]) :
      b'.Ok params start (blocks ++ [b]) := by
    refine (h.ok b' hb').mono (fun _ _ _ => Iff.rfl) hend fun l' => ?_
    rw [leads_append, leads_append_openBlock, or_iff_left]
    intro hlead
    exact (List.nodup_append.mp h.labels_nodup).2.2 _ (List.mem_map_of_mem hb') _
      (htargets _ hlead.2) rfl
  refine ⟨?_, ?_, fun b' hb' t ht => ?_, ?_, h.start_entry, fun l' n hn => ?_, fun l' n hn => ?_,
    fun b' hb' => ?_⟩
  · rw [← List.head?_map, hlabels, List.head?_map]
    exact h.entry_eq
  · rw [hlabels]
    exact h.labels_nodup
  · rcases List.mem_append.mp hb' with hb' | hb'
    · rw [hlabels]
      exact h.targets_mem b' (List.mem_append_left _ hb') t ht
    · obtain rfl := List.mem_singleton.mp hb'
      exact List.mem_append_right _ (htargets t ht)
  · rw [hflat]
    exact h.defs_nodup.append hnew fun n hold hn => hfresh n hn hold
  · rw [hlabels]
    exact h.start_mem l' n hn
  · rw [hflat]
    exact List.mem_append_left _ (h.start_defined l' n hn)
  · rcases List.mem_append.mp hb' with hb' | hb'
    · exact hmono (List.mem_append_left _ hb')
    · obtain rfl := List.mem_singleton.mp hb'
      exact hok (hmono (List.mem_append_right _ List.mem_cons_self))

/-- An instruction is added that uses what is known and defines a register that is new. -/
theorem emit {i : Instr}
    (huses : ∀ o ∈ i.uses, o.IsAvailable params (AtEnd start (blocks ++ [openBlock l body]) l))
    (hdst : ∀ n ∈ i.dst?, n ∉ (blocks ++ [openBlock l body]).flatMap Block.defs)
    (hphi : i.PhiOk params start (blocks ++ [openBlock l (body ++ [i])]) l) :
    Draft params start owed (blocks ++ [openBlock l (body ++ [i])]) := by
  have hdefs : definedBy (body ++ [i]) = definedBy body ++ i.dst?.toList := by
    cases hi : i.dst? <;> simp [definedBy, hi]
  refine h.replace rfl hdefs (Option.toList_nodup _) (fun n hn => hdst n (by simpa using hn)) nofun
    fun hok => ⟨fun before j after hbody o ho => ?_, fun n hn => ?_, nofun, nofun, fun j hj => ?_⟩
  · replace hbody : body ++ [i] = before ++ j :: after := hbody
    rcases List.eq_nil_or_concat after with rfl | ⟨after, x, rfl⟩
    · obtain ⟨rfl, hji⟩ := List.append_inj' hbody rfl
      obtain rfl := (List.cons.inj hji).1
      exact (huses o ho).mono fun n => h.atEnd_last.mp
    · rw [List.concat_eq_append, ← List.cons_append, ← List.append_assoc] at hbody
      exact hok.uses before j after (List.append_inj' hbody rfl).1 o ho
  · rcases List.mem_append.mp (hdefs ▸ hn : n ∈ definedBy body ++ i.dst?.toList) with hn | hn
    · exact hok.apart n hn
    · exact fun hassumed => hdst n (by simpa using hn) (h.start_defined l n hassumed)
  · rcases List.mem_append.mp hj with hj | hj
    · exact hok.phis j hj
    · obtain rfl := List.mem_singleton.mp hj
      exact hphi

/-- The last block gets its terminator, and control goes on to blocks that are owed. -/
theorem finish {exit : Terminator}
    (huses : ∀ o ∈ exit.uses, o.IsAvailable params (AtEnd start (blocks ++ [openBlock l body]) l))
    (htargets : ∀ t ∈ exit.targets, t ∈ owed ∧
      ∀ n, start t n → AtEnd start (blocks ++ [openBlock l body]) l n) :
    Draft params start owed (blocks ++ [⟨l, body, exit⟩]) := by
  have hend (n : Nat) (hn : AtEnd start (blocks ++ [openBlock l body]) l n) :
      AtEnd start (blocks ++ [⟨l, body, exit⟩]) l n := by
    rw [atEnd_append] at hn ⊢
    exact hn
  refine h.replace rfl (List.append_nil _).symm List.nodup_nil nofun (fun t ht => (htargets t ht).1)
    fun hok => ⟨hok.uses, hok.apart, fun o ho => ?_, fun t ht n hn => ?_, hok.phis⟩
  · exact (huses o ho).mono hend
  · exact hend n ((htargets t ht).2 n hn)

end LastBlock

theorem begin (h : Draft params start (l :: owed) blocks) :
    Draft params start owed (blocks ++ [openBlock l []]) := by
  have hlabels : (blocks ++ [openBlock l []]).map (·.label) ++ owed =
      blocks.map (·.label) ++ l :: owed := by
    simp [openBlock]
  have hflat : (blocks ++ [openBlock l []]).flatMap Block.defs = blocks.flatMap Block.defs := by
    simp [openBlock, Block.defs, definedBy]
  have hend (l' : Label) (n : Nat) (hn : AtEnd start blocks l' n) :
      AtEnd start (blocks ++ [openBlock l []]) l' n :=
    atEnd_append.mpr (.inl hn)
  refine ⟨?_, ?_, fun b hb t ht => ?_, ?_, h.start_entry, fun l' n hn => ?_, fun l' n hn => ?_,
    fun b hb => ?_⟩
  · obtain ⟨b, hb, hentry⟩ := Option.map_eq_some_iff.mp h.entry_eq
    rw [List.head?_append, hb]
    exact congrArg some hentry
  · rw [hlabels]
    exact h.labels_nodup
  · rcases List.mem_append.mp hb with hb | hb
    · rw [hlabels]
      exact h.targets_mem b hb t ht
    · obtain rfl := List.mem_singleton.mp hb
      cases ht
  · rw [hflat]
    exact h.defs_nodup
  · rw [hlabels]
    exact h.start_mem l' n hn
  · rw [hflat]
    exact h.start_defined l' n hn
  · rcases List.mem_append.mp hb with hb | hb
    · exact (h.ok b hb).mono (fun _ _ _ => Iff.rfl) hend fun l' => leads_append_openBlock
    · obtain rfl := List.mem_singleton.mp hb
      exact .openBlock l

/-- A label is set aside for a block at whose start the given registers will be known. -/
theorem owe (h : Draft params start owed blocks) {known : Nat → Prop}
    (hl : l ∉ blocks.map (·.label) ++ owed)
    (hknown : ∀ n, known n → n ∈ blocks.flatMap Block.defs) :
    Draft params (Function.update start l known) (l :: owed) blocks := by
  have hne {l' : Label} (hl' : l' ∈ blocks.map (·.label) ++ owed) : l' ≠ l :=
    fun heq => hl (heq.symm ▸ hl')
  have hmem {l' : Label} (hl' : l' ∈ blocks.map (·.label) ++ owed) :
      l' ∈ blocks.map (·.label) ++ l :: owed := by
    simp only [List.mem_append, List.mem_cons] at hl' ⊢
    exact hl'.imp_right .inr
  have hsame {l' : Label} (hl' : l' ∈ blocks.map (·.label) ++ owed) (n : Nat) :
      Function.update start l known l' n ↔ start l' n := by
    rw [Function.update_of_ne (hne hl')]
  have hcases {l' : Label} {n : Nat} (hn : Function.update start l known l' n) :
      l' = l ∧ known n ∨ start l' n := by
    by_cases heq : l' = l
    · subst heq
      exact .inl ⟨rfl, by simpa using hn⟩
    · rw [Function.update_of_ne heq] at hn
      exact .inr hn
  have hlabel {b : Block} (hb : b ∈ blocks) : b.label ∈ blocks.map (·.label) ++ owed :=
    List.mem_append_left _ (List.mem_map_of_mem hb)
  have hentry : Label.entry ∈ blocks.map (·.label) ++ owed := by
    obtain ⟨b, hb, hlabel'⟩ := Option.map_eq_some_iff.mp h.entry_eq
    exact hlabel' ▸ hlabel (List.mem_of_head? hb)
  refine ⟨h.entry_eq, ?_, fun b hb t ht => hmem (h.targets_mem b hb t ht), h.defs_nodup,
    fun n hn => h.start_entry n ((hsame hentry n).mp hn), fun l' n hn => ?_, fun l' n hn => ?_,
    fun b hb => (h.ok b hb).mono (fun l' hl' n => ?_) (fun l' n hn => ?_) fun _ => Iff.rfl⟩
  · exact List.perm_middle.nodup_iff.mpr (List.nodup_cons.mpr ⟨hl, h.labels_nodup⟩)
  · rcases hcases hn with ⟨rfl, -⟩ | hn
    · simp
    · exact hmem (h.start_mem l' n hn)
  · rcases hcases hn with ⟨-, hn⟩ | hn
    · exact hknown n hn
    · exact h.start_defined l' n hn
  · rcases List.mem_cons.mp hl' with rfl | hl'
    · exact hsame (hlabel hb) n
    · exact hsame (h.targets_mem b hb l' hl') n
  · rcases hn with hn | hn
    · exact .inl ((hsame (h.start_mem l' n hn) n).mpr hn)
    · exact .inr hn

end Draft

end Boxlang.Llvm
