import BatchJob.Control.Panel
import BatchJob.Job.Error
import BatchJob.Queue.Staging

/-! What a running job finds around it: its source, its hooks, and others who act at the same time
through the panel and on the worker pool. -/
namespace BatchJob.Job
open Worker

/-- The panel of the job, and the rest of the world. -/
structure World (σ : Type) where
  panel : Control.Panel
  rest : σ

/-- What a hook is told. -/
structure Occasion where
  stage : Stage
  total : Nat
  request : Work.Request
  deriving DecidableEq, Repr

/-- What the job is about while others act: at work itself, putting a unit into a full backlog,
waiting for a unit to complete, or waiting for all workers to leave. -/
inductive Moment where
  | working | sending | waiting | closing
  deriving DecidableEq, Repr

/-- `meanwhile` is what others do at a moment; it may be anything that they could do. `keep` tells
whether the staging queue has a file open, and `threadProblem?` why a thread of that name cannot be started. While
the job goes by `now`, deadlines are told by `uptime`, the clock of the machine. -/
structure Surroundings (σ : Type) where
  now : World σ → Duration
  openSource : World σ → Except String Unit × World σ
  total : World σ → Nat
  batchRef : World σ → Option String
  next : World σ → Except String (Option String) × World σ
  closeSource : World σ → World σ
  hook : Stage → Option (Occasion → World σ → Except String Unit × World σ)
  closeEndpoints : World σ → World σ
  disk : World σ → Queue.Disk
  keep : Bool → World σ → World σ
  meanwhile : Moment → World σ → World σ
  threadProblem? : String → World σ → Option String := fun _ _ => none
  uptime : World σ → Duration := fun _ => .zero

namespace World
variable {σ : Type}

def state (s : World σ) : Control.State := s.panel.state

def onState (s : World σ) (f : Control.State → Control.State) : World σ :=
  { s with panel := s.panel.onState f }

def onPool (s : World σ) (f : Pool → Pool) : World σ := { s with panel := s.panel.onPool f }

def setPool (s : World σ) (q : Pool) : World σ := s.onPool fun _ => q

def receive (s : World σ) : Option Completed × World σ :=
  match s.panel.pool with
  | none => (none, s)
  | some q => (q.receive.1, s.setPool q.receive.2)

/-- As long as there is a pool, more units may complete: it keeps the channel for them open itself. -/
def canComplete (s : World σ) : Bool := s.panel.pool.isSome

/-- Without a pool nothing can be submitted. -/
def submit (s : World σ) (unit : WorkUnit) : Except PoolError Nat × World σ :=
  match s.panel.pool with
  | none => (.error .shutDown, s)
  | some q => ((q.submit unit).1, s.setPool (q.submit unit).2)

def isBlocked (s : World σ) (serial : Nat) : Bool := s.panel.pool.any (·.isBlocked serial)

/-- The submission is taken back if the pool was shut meanwhile. -/
def giveUp? (s : World σ) (serial : Nat) : Option (World σ) :=
  (s.panel.pool.bind (·.giveUp? serial)).map s.setPool

def isRefused (s : World σ) (serial : Nat) : Bool :=
  s.panel.pool.any fun q => q.reply serial = .refused

def drop? (s : World σ) : Option (World σ) := (s.panel.pool.bind (·.drop?)).map s.setPool

def move (s : World σ) (phase : Control.Phase) : World σ := s.onState (·.moved phase)

end World
end BatchJob.Job
