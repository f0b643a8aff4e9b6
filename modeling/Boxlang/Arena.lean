import Boxlang.Expr

/-!
# Arenas

An `Arena` holds the expression nodes of one body.  Parents refer to operands by
slot, so the node in a slot can be replaced without touching its parents:
`wrap` moves a node to a fresh slot at the end and leaves its wrapper behind.
-/

namespace Boxlang

/-- The expression nodes of a body, by slot. -/
structure Arena where
  nodes : Array Expr := #[]
  deriving Inhabited

namespace Arena

def size (a : Arena) : Nat :=
  a.nodes.size

def isEmpty (a : Arena) : Bool :=
  a.nodes.isEmpty

def get (a : Arena) (slot : Slot) : Expr :=
  a.nodes.getD slot { span := ⟨0, 0⟩, kind := .noValue }

/-- Changes the node in a slot. -/
def modify (a : Arena) (slot : Slot) (f : Expr → Expr) : Arena :=
  { nodes := a.nodes.modify slot f }

def modifyKind (a : Arena) (slot : Slot) (f : ExprKind → ExprKind) : Arena :=
  a.modify slot fun e => { e with kind := f e.kind }

def setType (a : Arena) (slot : Slot) (t : Ty) : Arena :=
  a.modify slot fun e => { e with type? := some t }

def alloc (a : Arena) (span : Span) (kind : ExprKind) : Slot × Arena :=
  (a.size, { nodes := a.nodes.push { span, kind } })

/--
Moves the node in `slot` to a fresh slot and puts `wrapper`, built from that fresh
slot and the span of the node, in its place.  Returns the fresh slot.
-/
def wrap (a : Arena) (slot : Slot) (wrapper : Slot → Span → Expr) : Slot × Arena :=
  let moved := a.get slot
  (a.size, { nodes := (a.nodes.set! slot (wrapper a.size moved.span)).push moved })

/-- Wraps the node in `slot` in a conversion whose result has type `t`. -/
def convert (a : Arena) (slot : Slot) (op : Conversion) (t : Ty) : Slot × Arena :=
  a.wrap slot fun inner span => { span, kind := .conversion inner op, type? := some t }

/-- The number of conversions stacked on a slot, counting at most `n`. -/
def conversionDepthWithin (a : Arena) : Nat → Slot → Nat
  | 0, _ => 0
  | n + 1, slot =>
    match (a.get slot).kind with
    | .conversion inner _ => a.conversionDepthWithin n inner + 1
    | _ => 0

def conversionDepth (a : Arena) (slot : Slot) : Nat :=
  a.conversionDepthWithin a.size slot

/-! ### Reading what was written

A node that was wrapped is found unchanged in the fresh slot, and no other slot
changes.
-/

theorem get_eq_getElem? (a : Arena) (slot : Slot) :
    a.get slot = a.nodes[slot]?.getD { span := ⟨0, 0⟩, kind := .noValue } := by
  simp [get]

@[simp]
theorem size_modify (a : Arena) (slot : Slot) (f : Expr → Expr) :
    (a.modify slot f).size = a.size := by
  simp [modify, size]

theorem get_modify_self (a : Arena) {slot : Slot} (h : slot < a.size) (f : Expr → Expr) :
    (a.modify slot f).get slot = f (a.get slot) := by
  have h' : slot < a.nodes.size := h
  simp [get_eq_getElem?, modify, Array.getElem_modify, h']

theorem get_modify_of_ne (a : Arena) {slot other : Slot} (h : other ≠ slot) (f : Expr → Expr) :
    (a.modify slot f).get other = a.get other := by
  simp [get_eq_getElem?, modify, Array.getElem?_modify, Ne.symm h]

@[simp]
theorem size_wrap (a : Arena) (slot : Slot) (wrapper : Slot → Span → Expr) :
    (a.wrap slot wrapper).2.size = a.size + 1 := by
  simp [wrap, size]

theorem get_wrap_fresh (a : Arena) (slot : Slot) (wrapper : Slot → Span → Expr) :
    (a.wrap slot wrapper).2.get a.size = a.get slot := by
  simp [get_eq_getElem?, wrap, size, Array.getElem_push]

theorem get_wrap_self (a : Arena) {slot : Slot} (h : slot < a.size)
    (wrapper : Slot → Span → Expr) :
    (a.wrap slot wrapper).2.get slot = wrapper a.size (a.get slot).span := by
  have h' : slot < a.nodes.size := h
  simp [get_eq_getElem?, wrap, Array.getElem?_push, Nat.ne_of_lt h', h']

theorem get_wrap_of_ne (a : Arena) {slot other : Slot} (h : other < a.size) (hne : other ≠ slot)
    (wrapper : Slot → Span → Expr) :
    (a.wrap slot wrapper).2.get other = a.get other := by
  have h' : other < a.nodes.size := h
  simp [get_eq_getElem?, wrap, Array.getElem?_push, Nat.ne_of_lt h', Ne.symm hne]

end Arena

end Boxlang
