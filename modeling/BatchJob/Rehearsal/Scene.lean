import BatchJob.Endpoint.Request
import BatchJob.Work.Attempts

/-! Executing units by a script that says how each call ends. -/
namespace BatchJob.Rehearsal
open Endpoint Work

/-- One call: the time it takes, what happens at the desk meanwhile, and its outcome. -/
structure Cue where
  time : Duration
  requests : List Endpoint.Request
  outcome : Outcome
  deriving Repr

/-- A call as it was made, with the leases of its endpoint at that time. -/
structure Call where
  identifier : String
  endpoint : Endpoint
  leases : Option UInt32
  deriving DecidableEq, Repr

/-- `script` holds the calls to come; when it ends, every call succeeds. -/
structure Scene where
  desk : Desk
  script : List Cue
  calls : List Call

namespace Scene

def cue (s : Scene) : Cue := (s.script.head?).getD ⟨.zero, [], .success .zero⟩

def execute (unit : WorkUnit) (e : Endpoint) (s : Scene) : Outcome × Scene :=
  let desk : Desk := { s.desk with clock := s.desk.clock.advance s.cue.time }
  (s.cue.outcome,
    ⟨desk.handleAll s.cue.requests, s.script.tail, s.calls ++ [⟨unit.identifier, e, s.desk.pool.leases? e⟩]⟩)

def attempts : Attempts Scene := Attempts.atDesk (·.desk) (fun d s => { s with desk := d }) execute

/-- The calls and the sleeps that follow are those of one unit alone. -/
def forget (s : Scene) : Scene :=
  { s with calls := [], desk := { s.desk with clock := s.desk.clock.forgetSleeps } }

def run (p : RetryPolicy) (unit : WorkUnit) (s : Scene) : Outcome × Scene :=
  attempts.run p unit s.forget

end Scene
end BatchJob.Rehearsal
