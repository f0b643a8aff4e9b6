/-!
# Facts about the path through a body

A body is a straight line, so what has happened by some place has happened on
the only path to it.
-/

namespace Boxlang

/-- Something that can have happened on the way. -/
inductive Incident where
  | returned
  /-- A binding declared without a value was assigned one. -/
  | initialized (id : Nat)
  deriving DecidableEq

structure Path where
  incidents : List Incident := []
  deriving DecidableEq, Inhabited

namespace Path

def record (p : Path) (i : Incident) : Path :=
  { incidents := p.incidents.insert i }

def hasCertainly (p : Path) (i : Incident) : Bool :=
  p.incidents.contains i

theorem hasCertainly_record (p : Path) (i j : Incident) :
    (p.record i).hasCertainly j ↔ j = i ∨ p.hasCertainly j := by
  simp [record, hasCertainly]

end Path

end Boxlang
