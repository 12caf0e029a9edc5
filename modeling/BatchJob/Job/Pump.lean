import BatchJob.Job.Surroundings

/-! Feeding the worker pool from the source: a machine that goes round collecting what completed,
staging identifiers, filling batches with them and submitting these, until there is nothing more to
do. -/
namespace BatchJob.Job
open Worker Queue

inductive Ending where
  | completed | stopped
  deriving DecidableEq, Repr

/-- Where the machine is in its round. `limit` bounds the units in flight for this round, and
`serial` is the submission that waits for room. -/
inductive Point where
  | collecting
  | staging
  | filling (limit : Nat)
  | sending (limit serial : Nat)
  | concluding
  | waiting
  deriving DecidableEq, Repr

def Point.moment : Point → Moment
  | sending _ _ => .sending
  | waiting => .waiting
  | _ => .working

/-- `units` numbers the units submitted so far, and `batch` is the one that is being filled. `staged`
and `submitted` are counts of this round. -/
structure Pump where
  point : Point
  queue : Staging
  batch : List String
  inFlight : Nat
  units : Nat
  sourceDone : Bool
  staged : Nat
  submitted : Nat
  deriving Repr

/-- How the step of the machine ended: with the end of the pumping, or with more to do. -/
abbrev Step (σ : Type) := Option (Except JobError Ending) × Pump × World σ

/-- The error that a failed unit causes for the whole job, if any. -/
def fatal? (failOnError : Bool) (c : Completed) : Work.FailureKind → Option JobError
  | .poolExhausted waits => some (.refused (.exhausted waits))
  | _ =>
    if failOnError then some (.unitFailed c.task.unit.identifier (c.outcome.detail.getD "")) else none

def tally (c : Completed) (s : Control.State) : Control.State :=
  if c.outcome.isSuccess then { s with succeeded := s.succeeded + c.task.unit.items }
  else { s with failed := s.failed + c.task.unit.items }

def fatalOutcome? (failOnError : Bool) (c : Completed) : Option JobError :=
  c.outcome.status.kind?.bind (fatal? failOnError c)

namespace Pump
variable {σ : Type}

def chunk : Nat := 1024

def start (queue : Staging) : Pump := ⟨.collecting, queue, [], 0, 0, false, 0, 0⟩

def moveTo (p : Pump) (point : Point) : Pump := { p with point := point }

def goOn (p : Pump) (s : World σ) : Step σ := (none, p, s)

def fail (p : Pump) (s : World σ) (e : JobError) : Step σ := (some (.error e), p, s)

def finish (p : Pump) (s : World σ) (e : Ending) : Step σ := (some (.ok e), p, s)

/-- One unit less is in flight; its outcome may end the job. -/
def record (c : Settings) (p : Pump) (done : Completed) (s : World σ) : Step σ :=
  let p := { p with inFlight := p.inFlight - 1, point := .collecting }
  let s := s.onState (tally done)
  match fatalOutcome? c.failOnError done with
  | some e => p.fail s e
  | none => p.goOn s

/-- A round begins with what has completed, and a stop is heeded only then. -/
def collect (c : Settings) (p : Pump) (s : World σ) : Step σ :=
  match s.receive with
  | (some done, s) => p.record c done s
  | (none, s) =>
    if s.state.stopRequested then p.finish s .stopped
    else { p with point := .staging, staged := 0, submitted := 0 }.goOn s

def limit (c : Settings) (s : World σ) : Nat := (s.state.threadCount + c.inFlightLimit) % Text.limit64

/-- The limit for this round is set when staging is over. -/
def toFilling (c : Settings) (p : Pump) (s : World σ) : Step σ := (p.moveTo (.filling (limit c s))).goOn s

def offer (w : Surroundings σ) (p : Pump) (identifier : String) (s : World σ) : Step σ :=
  let (result, queue) := p.queue.offer identifier (w.disk s)
  let s := w.keep queue.isOpen s
  let p := { p with queue := queue }
  match result with
  | .error e => p.fail s (.ofQueue e)
  | .ok false => p.fail s (.internal "staging queue refused an identifier")
  | .ok true => { p with staged := p.staged + 1 }.goOn s

def stage (w : Surroundings σ) (c : Settings) (p : Pump) (s : World σ) : Step σ :=
  if p.sourceDone ∨ chunk ≤ p.staged ∨ p.queue.isFull then p.toFilling c s
  else
    match w.next s with
    | (.error e, s) => p.fail s (.source e)
    | (.ok none, s) => { p with sourceDone := true }.goOn s
    | (.ok (some identifier), s) =>
      if Text.blankText identifier then p.goOn s else p.offer w identifier s

/-- A submission that is refused is no error when a stop is under way. -/
def refused (p : Pump) (s : World σ) (e : PoolError) : Step σ :=
  if s.state.stopRequested then p.finish s .stopped else p.fail s (.pool e)

def accepted (p : Pump) (limit : Nat) (s : World σ) : Step σ :=
  { p with point := .filling limit, inFlight := p.inFlight + 1, submitted := p.submitted + 1 }.goOn s

def submit (c : Settings) (request : Work.Request) (limit : Nat) (p : Pump) (s : World σ) : Step σ :=
  let unit := WorkUnit.batch p.units p.batch c.batchDelimiter request
  let p := { p with batch := [], units := p.units + 1 }
  match s.submit unit with
  | (.error e, s) => p.refused s e
  | (.ok serial, s) =>
    if s.isBlocked serial then (p.moveTo (.sending limit serial)).goOn s else p.accepted limit s

/-- Takes one more identifier into the batch, or submits it when it is full or nothing can come. -/
def fill (w : Surroundings σ) (c : Settings) (request : Work.Request) (limit : Nat) (p : Pump)
    (s : World σ) : Step σ :=
  if limit ≤ p.inFlight then (p.moveTo .concluding).goOn s
  else if c.batchSize ≤ p.batch.length then p.submit c request limit s
  else
    let (result, queue) := p.queue.poll (w.disk s)
    let s := w.keep queue.isOpen s
    let p := { p with queue := queue }
    match result with
    | .error e => p.fail s (.ofQueue e)
    | .ok (some identifier) => { p with batch := p.batch ++ [identifier] }.goOn s
    | .ok none =>
      if p.sourceDone ∧ p.batch ≠ [] then p.submit c request limit s
      else (p.moveTo .concluding).goOn s

/-- Waits for room; from time to time it looks whether the pool was shut. -/
def send (limit serial : Nat) (p : Pump) (s : World σ) : Step σ :=
  if s.isRefused serial then p.refused s .shutDown
  else if s.isBlocked serial then p.goOn ((s.giveUp? serial).getD s)
  else p.accepted limit s

/-- A round in which nothing could be staged or submitted ends with a wait. -/
def conclude (p : Pump) (s : World σ) : Step σ :=
  if p.sourceDone ∧ p.batch = [] ∧ p.queue.isEmpty ∧ p.inFlight = 0 then p.finish s .completed
  else if p.staged = 0 ∧ p.submitted = 0 ∧ 0 < p.inFlight then (p.moveTo .waiting).goOn s
  else (p.moveTo .collecting).goOn s

def wait (c : Settings) (p : Pump) (s : World σ) : Step σ :=
  match s.receive with
  | (some done, s) => p.record c done s
  | (none, s) =>
    if s.canComplete then (p.moveTo .collecting).goOn s
    else p.fail s (.internal "worker pool completion channel closed")

def step (w : Surroundings σ) (c : Settings) (request : Work.Request) (p : Pump) (s : World σ) :
    Step σ :=
  match p.point with
  | .collecting => p.collect c s
  | .staging => p.stage w c s
  | .filling limit => p.fill w c request limit s
  | .sending limit serial => p.send limit serial s
  | .concluding => p.conclude s
  | .waiting => p.wait c s

end Pump
end BatchJob.Job
