import Boxlang.Proofs.Names.Scoped
import Mathlib.Data.Multiset.Bind
import Mathlib.Algebra.Order.Group.Multiset

/-!
# Variables that are stored in a body

Nodes and statements store the numbers of variables: where a variable is declared, where a
name is resolved, and where a closure captures (`Stored`).  A body stores them all together as
multisets, since nodes are moved while a body is analysed.  Conversions store none, so they can
be put in anywhere, and an annotation changes what is stored by what its node stores.

`Stored.Grows` says what comes to be stored while variables are declared, under the names and
in the order of a list: a number for each of them at most once, and numbers that names mean.
-/

namespace Boxlang

namespace ExprKind

def readings : ExprKind → Names
  | .localRef name (some id) => [(name.name, id)]
  | _ => []

def captures : ExprKind → List VariableId
  | .closure literal => literal.captures
  | _ => []

end ExprKind

namespace Arena

variable {α : Type} {f : ExprKind → List α}

def collect (f : ExprKind → List α) (a : Arena) : Multiset α :=
  (a.nodes.toList : Multiset Expr).bind fun e => (f e.kind : Multiset α)

theorem bind_middle (g : Expr → Multiset α) (before after : List Expr) (e : Expr) :
    (↑(before ++ e :: after) : Multiset Expr).bind g = g e + (↑(before ++ after) : Multiset Expr).bind g := by
  have hperm : (↑(before ++ e :: after) : Multiset Expr) = e ::ₘ ↑(before ++ after) := by
    rw [Multiset.cons_coe, Multiset.coe_eq_coe]
    exact List.perm_middle
  rw [hperm, Multiset.cons_bind]

theorem collect_eq_of_split {a : Arena} {before after : List Expr} {e : Expr}
    (h : a.nodes.toList = before ++ e :: after) :
    a.collect f = f e.kind + (↑(before ++ after) : Multiset Expr).bind fun e => (f e.kind : Multiset α) := by
  rw [collect, h, bind_middle]

theorem exists_split (a : Arena) {slot : Slot} (h : slot < a.size) (g : Expr → Expr) :
    ∃ before after, a.nodes.toList = before ++ a.get slot :: after ∧
      (a.modify slot g).nodes.toList = before ++ g (a.get slot) :: after := by
  obtain ⟨before, e, after, hnodes, hlen, hmodify⟩ :=
    List.exists_of_modify g (l := a.nodes.toList) (i := slot) h
  have he : a.get slot = e := by
    rw [get_eq_getElem?, ← Array.getElem?_toList, hnodes, ← hlen]
    simp
  refine ⟨before, after, he ▸ hnodes, ?_⟩
  rw [modify, Array.toList_modify, hmodify, he]

theorem modify_of_size_le (a : Arena) {slot : Slot} (h : a.size ≤ slot) (g : Expr → Expr) :
    a.modify slot g = a := by
  have hnodes : (a.nodes.modify slot g).toList = a.nodes.toList := by
    rw [Array.toList_modify, List.modify_eq_self h]
  rw [modify, Array.toList_inj.mp hnodes]

/-- A change of a node changes what is stored by what the node stores. -/
theorem collect_modify_le (a : Arena) {slot : Slot} {g : Expr → Expr} {more : Multiset α}
    (h : (f (g (a.get slot)).kind : Multiset α) ≤ f (a.get slot).kind + more) :
    (a.modify slot g).collect f ≤ a.collect f + more := by
  by_cases hslot : slot < a.size
  · obtain ⟨before, after, hold, hnew⟩ := a.exists_split hslot g
    rw [collect_eq_of_split hnew, collect_eq_of_split hold, add_right_comm]
    exact add_le_add_left h _
  · rw [a.modify_of_size_le (Nat.le_of_not_lt hslot)]
    exact Multiset.le_add_right _ _

/-- Where conversions store nothing, and neither do missing nodes, a conversion changes nothing that is stored. -/
theorem collect_convert (hconversion : ∀ inner op, f (.conversion inner op) = []) (hmissing : f .noValue = [])
    (a : Arena) (slot : Slot) (op : Conversion) (t : Ty) : (a.convert slot op t).2.collect f = a.collect f := by
  let wrapper : Expr := a.conversionAt slot op t
  have hnodes : (a.convert slot op t).2.nodes.toList = a.nodes.toList.set slot wrapper ++ [a.get slot] := by
    rw [convert, wrap, Array.toList_push, Array.set!_eq_setIfInBounds, Array.toList_setIfInBounds]
    rfl
  rw [collect_eq_of_split hnodes, List.append_nil]
  by_cases hslot : slot < a.size
  · obtain ⟨before, after, hold, hnew⟩ := a.exists_split hslot fun _ => wrapper
    have hset : a.nodes.toList.set slot wrapper = before ++ wrapper :: after := by
      rw [← hnew, modify, Array.toList_modify, List.set_eq_modify]
    have hwrapper : f wrapper.kind = [] := hconversion _ _
    rw [hset, bind_middle, hwrapper, collect_eq_of_split hold]
    simp
  · rw [List.set_eq_of_length_le (Nat.le_of_not_lt hslot), a.get_of_size_le (Nat.le_of_not_lt hslot)]
    simp [hmissing, collect]

end Arena

/-! ### Bodies -/

def Stmt.readings : Stmt → Names
  | .assign stmt => (stmt.id?.map (stmt.target.name, ·)).toList
  | _ => []

/-! ### What is stored together -/

/-- The numbers of variables that are stored somewhere, with names where these stand beside them. -/
@[ext]
structure Stored where
  /-- The variables that are declared. -/
  binders : Multiset (String × VariableId)
  /-- The variables that names are resolved to, where they are read or assigned to. -/
  readings : Multiset (String × VariableId)
  /-- The variables that closures capture. -/
  captures : Multiset VariableId

def ExprKind.stores (k : ExprKind) : Stored :=
  ⟨k.binders, k.readings, k.captures⟩

def Arena.stores (a : Arena) : Stored :=
  ⟨a.collect ExprKind.binders, a.collect ExprKind.readings, a.collect ExprKind.captures⟩

def Stmt.storesOf (stmts : List Stmt) : Stored :=
  ⟨stmts.flatMap Stmt.binders, stmts.flatMap Stmt.readings, 0⟩

namespace Stored

/-- What is stored in two places. -/
instance : Add Stored :=
  ⟨fun m k => ⟨m.binders + k.binders, m.readings + k.readings, m.captures + k.captures⟩⟩

instance : AddCommSemigroup Stored where
  add_assoc _ _ _ := Stored.ext (add_assoc ..) (add_assoc ..) (add_assoc ..)
  add_comm _ _ := Stored.ext (add_comm ..) (add_comm ..) (add_comm ..)

end Stored

theorem Stmt.storesOf_append (stmts stmts' : List Stmt) :
    storesOf (stmts ++ stmts') = storesOf stmts + storesOf stmts' := by
  refine Stored.ext ?_ ?_ rfl
  · simp only [storesOf, List.flatMap_append, ← Multiset.coe_add]
    rfl
  · simp only [storesOf, List.flatMap_append, ← Multiset.coe_add]
    rfl

def Body.stores (body : Body) : Stored :=
  body.arena.stores + Stmt.storesOf body.stmts

/-- Later variables leave the names of earlier ones alone. -/
theorem getElem?_declared_append {declared : List String} {id : VariableId} {name : String}
    (h : declared[id]? = some name) (new : List String) : (declared ++ new)[id]? = some name := by
  obtain ⟨hlt, -⟩ := List.getElem?_eq_some_iff.mp h
  rw [List.getElem?_append_left hlt, h]

/--
After `declared`, the variables `new` are declared, numbered in this order.  Each of them is
stored at most once as a declaration; else nothing is stored anew but numbers of variables of
the name that they stand beside, and captures of declared variables.
-/
structure Stored.Grows (declared new : List String) (m m' : Stored) : Prop where
  binders : m'.binders ≤ m.binders + ↑(new.zipIdx declared.length)
  readings : ∃ found, m'.readings ≤ m.readings + found ∧ ∀ q ∈ found, (declared ++ new)[q.2]? = some q.1
  captures : ∃ found, m'.captures ≤ m.captures + found ∧ ∀ id ∈ found, id < (declared ++ new).length

namespace Stored.Grows

variable {declared new new' : List String} {m m' m'' : Stored}

theorem refl (declared : List String) (m : Stored) : m.Grows declared [] m where
  binders := Multiset.le_add_right _ _
  readings := ⟨0, Multiset.le_add_right _ _, by simp⟩
  captures := ⟨0, Multiset.le_add_right _ _, by simp⟩

theorem trans (h : m.Grows declared new m') (h' : m'.Grows (declared ++ new) new' m'') :
    m.Grows declared (new ++ new') m'' where
  binders := by
    refine le_trans h'.binders (le_trans (add_le_add_left h.binders _) (le_of_eq ?_))
    rw [add_assoc, List.zipIdx_append, Multiset.coe_add, List.length_append, Nat.add_comm]
  readings := by
    obtain ⟨found, hle, hfound⟩ := h.readings
    obtain ⟨found', hle', hfound'⟩ := h'.readings
    refine ⟨found + found', ?_, fun q hq => ?_⟩
    · rw [← add_assoc]
      exact le_trans hle' (add_le_add_left hle _)
    · rw [← List.append_assoc]
      rcases Multiset.mem_add.mp hq with hq | hq
      · exact getElem?_declared_append (hfound q hq) new'
      · exact hfound' q hq
  captures := by
    obtain ⟨found, hle, hfound⟩ := h.captures
    obtain ⟨found', hle', hfound'⟩ := h'.captures
    refine ⟨found + found', ?_, fun id hid => ?_⟩
    · rw [← add_assoc]
      exact le_trans hle' (add_le_add_left hle _)
    · rw [← List.append_assoc]
      rcases Multiset.mem_add.mp hid with hid | hid
      · exact List.length_append ▸ Nat.lt_add_right _ (hfound id hid)
      · exact hfound' id hid

theorem enclosing {names : List String} {found : Multiset VariableId}
    (h : m.Grows (declared ++ names) new m') (hbinders : m''.binders ≤ m'.binders + ↑(names.zipIdx declared.length))
    (hreadings : m''.readings ≤ m'.readings) (hcaptures : m''.captures ≤ m'.captures + found)
    (hfound : ∀ id ∈ found, id < (declared ++ names ++ new).length) : m.Grows declared (names ++ new) m'' where
  binders := by
    refine le_trans hbinders (le_trans (add_le_add_left h.binders _) (le_of_eq ?_))
    rw [add_assoc, List.zipIdx_append, ← Multiset.coe_add, List.length_append,
      add_comm (Multiset.ofList (names.zipIdx _))]
  readings := by
    obtain ⟨found, hle, hfound⟩ := h.readings
    exact ⟨found, le_trans hreadings hle, by simpa using hfound⟩
  captures := by
    obtain ⟨found', hle, hfound'⟩ := h.captures
    refine ⟨found' + found, ?_, fun id hid => ?_⟩
    · rw [← add_assoc]
      exact le_trans hcaptures (add_le_add_left hle _)
    · rw [← List.append_assoc]
      exact (Multiset.mem_add.mp hid).elim (hfound' id) (hfound id)

theorem add (h : m.Grows declared new m') (k : Stored) : (m + k).Grows declared new (m' + k) where
  binders := le_trans (add_le_add_left h.binders _) (le_of_eq (add_right_comm ..))
  readings := by
    obtain ⟨found, hle, hfound⟩ := h.readings
    exact ⟨found, le_trans (add_le_add_left hle _) (le_of_eq (add_right_comm ..)), hfound⟩
  captures := by
    obtain ⟨found, hle, hfound⟩ := h.captures
    exact ⟨found, le_trans (add_le_add_left hle _) (le_of_eq (add_right_comm ..)), hfound⟩

theorem modify {a : Arena} {slot : Slot} {g : Expr → Expr}
    (h : (a.get slot).kind.stores.Grows declared new (g (a.get slot)).kind.stores) :
    a.stores.Grows declared new (a.modify slot g).stores where
  binders := a.collect_modify_le h.binders
  readings := by
    obtain ⟨found, hle, hfound⟩ := h.readings
    exact ⟨found, a.collect_modify_le hle, hfound⟩
  captures := by
    obtain ⟨found, hle, hfound⟩ := h.captures
    exact ⟨found, a.collect_modify_le hle, hfound⟩

end Stored.Grows

theorem Arena.stores_convert (a : Arena) (slot : Slot) (op : Conversion) (t : Ty) :
    (a.convert slot op t).2.stores = a.stores := by
  simp only [stores, collect_convert (f := ExprKind.binders) (fun _ _ => rfl) rfl,
    collect_convert (f := ExprKind.readings) (fun _ _ => rfl) rfl,
    collect_convert (f := ExprKind.captures) (fun _ _ => rfl) rfl]

namespace ExprKind

@[simp]
theorem stores_withTarget (k : ExprKind) (id : FunctionId) : (k.withTarget id).stores = k.stores := by
  cases k <;> rfl

@[simp]
theorem stores_withGenericArguments (k : ExprKind) (types : List Ty) :
    (k.withGenericArguments types).stores = k.stores := by
  cases k <;> rfl

theorem grows_withVariable {k : ExprKind} {name : String} {id : VariableId} {declared : List String}
    (hname : ∀ other id?, k = .localRef other id? → other.name = name) (hid : declared[id]? = some name) :
    k.stores.Grows declared [] (k.withVariable id).stores := by
  cases k with
  | localRef other id? =>
      obtain rfl := hname other id? rfl
      refine { Stored.Grows.refl declared _ with readings := ⟨{(other.name, id)}, Multiset.le_add_left _ _, ?_⟩ }
      simpa using hid
  | _ => exact .refl declared _

/-- The numbers of a closure's parameters are stored, once each. -/
theorem binders_withClosureVariables_le {k : ExprKind} {names : List String} (n : Nat) (captures : List VariableId)
    (hnames : ∀ literal, k = .closure literal → literal.params.map (·.name.name) = names) :
    ((k.withClosureVariables (List.range' n names.length) captures).binders : Multiset (String × VariableId)) ≤
      k.binders + (names.zipIdx n : Multiset (String × VariableId)) := by
  cases k with
  | closure literal =>
      rw [Closure.binders_withIds, hnames literal rfl, Multiset.coe_reverse, ← List.zipIdx_eq_zip_range']
      exact Multiset.le_add_left _ _
  | _ => exact Multiset.zero_le _

theorem readings_withClosureVariables_le (k : ExprKind) (ids captures : List VariableId) :
    ((k.withClosureVariables ids captures).readings : Multiset (String × VariableId)) ≤ k.readings + 0 := by
  cases k <;> exact Multiset.le_add_right _ _

theorem captures_withClosureVariables_le (k : ExprKind) (ids captures : List VariableId) :
    ((k.withClosureVariables ids captures).captures : Multiset VariableId) ≤
      k.captures + (captures : Multiset VariableId) := by
  cases k with
  | closure literal => exact Multiset.le_add_left _ _
  | _ => exact Multiset.zero_le _

end ExprKind

end Boxlang
