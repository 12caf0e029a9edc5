/-! What a worker pool counts. -/
namespace BatchJob.Worker

/-- `queued` are the units that were accepted and not yet started. -/
structure Counters where
  submitted : Nat
  queued : Nat
  active : Nat
  completed : Nat
  failed : Nat
  discarded : Nat
  deriving DecidableEq, Repr

namespace Counters

def zero : Counters := ⟨0, 0, 0, 0, 0, 0⟩

def submit (c : Counters) : Counters :=
  { c with submitted := c.submitted + 1, queued := c.queued + 1 }

def takeBack (c : Counters) : Counters :=
  { c with submitted := c.submitted - 1, queued := c.queued - 1 }

def start (c : Counters) : Counters := { c with queued := c.queued - 1, active := c.active + 1 }

def discard (c : Counters) : Counters :=
  { c with queued := c.queued - 1, discarded := c.discarded + 1 }

def finish (c : Counters) (success : Bool) : Counters :=
  if success then { c with active := c.active - 1, completed := c.completed + 1 }
  else { c with active := c.active - 1, failed := c.failed + 1 }

/-- The units that were accepted, by what became of them. -/
def sum (c : Counters) : Nat := c.queued + c.active + c.completed + c.failed + c.discarded

@[simp] theorem sum_zero : zero.sum = 0 := rfl

@[simp] theorem sum_submit (c : Counters) : c.submit.sum = c.sum + 1 := by
  simp only [sum, submit]; omega

theorem sum_start {c : Counters} (h : 0 < c.queued) : c.start.sum = c.sum := by
  simp only [sum, start]; omega

theorem sum_discard {c : Counters} (h : 0 < c.queued) : c.discard.sum = c.sum := by
  simp only [sum, discard]; omega

theorem sum_finish {c : Counters} (h : 0 < c.active) (success : Bool) :
    (c.finish success).sum = c.sum := by
  cases success <;> simp only [sum, finish, Bool.false_eq_true, if_true, if_false] <;> omega

end Counters
end BatchJob.Worker
