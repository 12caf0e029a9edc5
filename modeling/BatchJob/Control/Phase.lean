import BatchJob.Json.Shape

/-! The phases of a job. -/
namespace BatchJob.Control

/-- The last three are final. -/
inductive Phase where
  | init | running | paused | completed | stopped | failed
  deriving DecidableEq, Repr

namespace Phase

def name : Phase → String
  | init => "INIT"
  | running => "RUNNING"
  | paused => "PAUSED"
  | completed => "COMPLETED"
  | stopped => "STOPPED"
  | failed => "FAILED"

def all : List Phase := [init, running, paused, completed, stopped, failed]

def ofName? (name : String) : Option Phase := all.find? (·.name = name)

@[simp] theorem ofName?_name (p : Phase) : ofName? p.name = some p := by cases p <;> rfl

def toJson (p : Phase) : Json := .ofText p.name

def ofJson? (v : Json) : Option Phase := (Json.bareName? v).bind ofName?

def isFinal : Phase → Bool
  | completed => true
  | stopped => true
  | failed => true
  | _ => false

/-- A job starts running or paused, goes back and forth between the two, and ends from anywhere. -/
def canMoveTo : Phase → Phase → Bool
  | init, running => true
  | init, paused => true
  | running, paused => true
  | paused, running => true
  | p, q => !p.isFinal && q.isFinal

/-- The phase after the wish to be in `next`, with the answer whether that is so. -/
def move (p next : Phase) : Bool × Phase :=
  if p = next then (true, p) else if p.canMoveTo next then (true, next) else (false, p)

theorem canMoveTo_eq_false_of_isFinal {p : Phase} (h : p.isFinal = true) (q : Phase) :
    p.canMoveTo q = false := by
  cases p <;> first | exact absurd h (by decide) | (cases q <;> rfl)

theorem move_of_isFinal {p : Phase} (h : p.isFinal = true) (q : Phase) : (p.move q).2 = p := by
  unfold move
  split
  · rfl
  · simp [canMoveTo_eq_false_of_isFinal h q]

end Phase
end BatchJob.Control
