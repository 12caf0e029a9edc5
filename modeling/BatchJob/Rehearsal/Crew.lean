import BatchJob.Worker.Schedule

/-! A worker pool whose units have outcomes that are known in advance. -/
namespace BatchJob.Rehearsal
open Work Worker

/-- A unit that is held stays at work until the crew is released. -/
structure Plan where
  outcome : Outcome
  held : Bool
  deriving Repr

/-- `plans` are in the order of submission. -/
structure Crew where
  pool : Pool
  plans : List Plan
  released : Bool
  deriving Repr

namespace Crew

def create (s : Worker.Settings) : Except PoolError Crew :=
  match Pool.create s with
  | .error e => .error e
  | .ok pool => .ok ⟨pool, [], false⟩

def outcome? (c : Crew) (t : Task) : Option Outcome :=
  match c.plans[t.serial]? with
  | none => none
  | some plan => if plan.held && !c.released then none else some plan.outcome

def onPool (c : Crew) (f : Pool → Pool) : Crew := { c with pool := f c.pool }

def settle (c : Crew) : Crew := c.onPool (.settle c.outcome?)

def submit (c : Crew) (unit : WorkUnit) (plan : Plan) : Except PoolError Nat × Crew :=
  match c.pool.submit unit with
  | (.error e, pool) => (.error e, { c with pool := pool })
  | (.ok serial, pool) => (.ok serial, { c with pool := pool, plans := c.plans ++ [plan] })

def release (c : Crew) : Crew := { c with released := true }

/-- How long one who waits for room goes without a look at the pool. -/
def recheck : Duration := .ofMillis 50

/-- Workers finish what they can. While some are still at work after that, those who wait for room
find the pool shut, if there is time enough. -/
def await (c : Crew) (timeout : Duration) : Crew :=
  let c := c.settle
  if c.pool.hands ≠ [] ∧ recheck ≤ timeout then (c.onPool .giveUpAll).settle else c

/-- Closing a second time waits for nobody. -/
def awaitFirst (c : Crew) (timeout : Duration) (f : Pool → Pool) : Crew :=
  if c.pool.shut then (c.onPool f).settle else (c.onPool f).await timeout

def close (c : Crew) (timeout : Duration) : Crew := c.awaitFirst timeout .close

def closeNow (c : Crew) (timeout : Duration) : Crew := c.awaitFirst timeout .closeNow

end Crew
end BatchJob.Rehearsal
