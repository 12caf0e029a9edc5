import BatchJob.Work.Outcome
import BatchJob.Work.Unit

/-! Units in the hands of a worker pool, and the places where they can be. -/
namespace BatchJob.Worker
open Work

/-- What a caller of the worker pool can be told instead of an answer. -/
inductive PoolError where
  | timeout
  | cancelled
  | shutDown
  | invalidSettings (text : String)
  | internal (text : String)
  deriving DecidableEq, Repr

def PoolError.message : PoolError → String
  | timeout => "operation timed out"
  | cancelled => "unit was discarded before it started"
  | shutDown => "pool has been shut down"
  | invalidSettings text => "invalid configuration: " ++ text
  | internal text => "internal error: " ++ text

/-- A submitted unit; `serial` numbers the submissions. -/
structure Task where
  serial : Nat
  unit : WorkUnit
  deriving DecidableEq, Repr

/-- Where a worker is in its round: before the gate, behind it, choosing between the backlog and
its retirement, before the gate again with a task in hand, behind it, and at work. -/
inductive Station where
  | arriving
  | looking
  | choosing
  | holding (t : Task)
  | starting (t : Task)
  | running (t : Task)
  deriving DecidableEq, Repr

namespace Station

def task? : Station → Option Task
  | holding t => some t
  | starting t => some t
  | running t => some t
  | _ => none

def claimed? : Station → Option Task
  | holding t => some t
  | starting t => some t
  | _ => none

def running? : Station → Option Task
  | running t => some t
  | _ => none

end Station

structure Hand where
  id : Nat
  station : Station
  deriving DecidableEq, Repr

/-- What became of the answer to a submission: it is to come, it is there, it was fetched, nobody
will ever give it, or the submission itself was taken back. -/
inductive Reply where
  | pending
  | answered (o : Outcome)
  | fetched (o : Outcome)
  | dropped
  | refused
  deriving DecidableEq, Repr

/-- A unit that was submitted, with what became of the answer. -/
structure Submission where
  unit : WorkUnit
  reply : Reply
  deriving DecidableEq, Repr

structure Completed where
  task : Task
  outcome : Outcome
  deriving DecidableEq, Repr

end BatchJob.Worker
