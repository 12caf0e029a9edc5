import BatchJob.Job.Pump

/-! A whole run of a job, leg by leg, from its start to its report. Others may act before each of its steps. What it
logs is left out, and when somebody shows how far it is or looks at its command file is up to the others. -/
namespace BatchJob.Job
open Worker Queue

/-- A job that is ready to run. -/
structure Ready where
  settings : Settings
  vars : Text.Table
  queue : Staging
  deriving Repr

abbrev Result := Except JobError Ending

/-- What a run does next. A hook that succeeds is followed by the leg `next`. The backlog is emptied task by
task, and between `shutting` the worker pool and `tallying` what was still completed the workers have time to
leave. A run that has `crashed` gives up then and there, and its result is lost. -/
inductive Leg where
  | starting
  | opening
  | hooking (stage : Stage) (next : Leg)
  | weighing
  | launching
  | launched
  | staffing
  | pumping
  | dismissing (result : Result)
  | emptying (result : Result)
  | shutting (result : Result)
  | crashed (result : Result)
  | tallying (result : Result)
  | closing (result : Result)
  | ending (result : Result)
  | reporting (result : Result)
  | over (result : Except JobError Control.Report)

/-- `request` is what all units carry along, once the source is open. -/
structure Run where
  leg : Leg
  request : Work.Request
  pump : Pump

namespace Run
variable {σ : Type}

def start (queue : Staging) : Run := ⟨.starting, .plain, .start queue⟩

def go (r : Run) (leg : Leg) : Run := { r with leg := leg }

def fail (r : Run) (e : JobError) : Run := r.go (.closing (.error e))

def result? (r : Run) : Option (Except JobError Control.Report) :=
  match r.leg with
  | .over result => some result
  | _ => none

/-- No further step is made: the result is there, or there will be none. -/
def isOver (r : Run) : Bool :=
  match r.leg with
  | .over _ | .crashed _ => true
  | _ => false

def crash? (r : Run) : Option String :=
  match r.leg with
  | .crashed _ => some "overflow when adding duration to instant"
  | _ => none

def moment (r : Run) : Moment :=
  match r.leg with
  | .pumping => r.pump.point.moment
  | .tallying _ => .closing
  | _ => .working

def openSource (w : Surroundings σ) (vars : Text.Table) (r : Run) (s : World σ) : Run × World σ :=
  match w.openSource s with
  | (.error text, s) => (r.fail (.source text), s)
  | (.ok (), s) =>
    let s := s.onState fun t => { t with total := w.total s }
    ({ r with leg := .hooking .init .weighing, request := ⟨w.batchRef s, vars⟩ }, s)

def runHook (w : Surroundings σ) (stage : Stage) (next : Leg) (r : Run) (s : World σ) :
    Run × World σ :=
  match w.hook stage with
  | none => (r.go next, s)
  | some hook =>
    match hook ⟨stage, s.state.total, r.request⟩ s with
    | (.error text, s) => (r.fail (.hook stage text), s)
    | (.ok (), s) => (r.go next, s)

def course (c : Settings) (total : Nat) : Leg :=
  if 0 < total then .hooking .preBatch .launching
  else if c.hooksWhenEmpty then
    .hooking .preBatch (.hooking .postBatch (.closing (.ok .completed)))
  else .closing (.ok .completed)

/-- What keeps those from being started who watch the job and its command file, if anything. -/
def watchProblem? (w : Surroundings σ) (c : Settings) (s : World σ) : Option JobError :=
  let command? :=
    if c.commandFile.isSome then
      (w.threadProblem? "job-commands" s).map ("failed to start command file thread: " ++ ·)
    else none
  (((w.threadProblem? "job-monitor" s).map ("failed to start monitor thread: " ++ ·)) <|> command?).map
    .internal

def staff (w : Surroundings σ) (c : Settings) (r : Run) (s : World σ) : Run × World σ :=
  match Pool.create c.workers with
  | .error e => (r.fail (.pool e), s)
  | .ok q =>
    let s := { s with panel := s.panel.attach q }
    match watchProblem? w c s with
    | some e => (r.go (.dismissing (.error e)), s)
    | none => (r.go .pumping, s)

def pumpOn (w : Surroundings σ) (c : Settings) (r : Run) (s : World σ) : Run × World σ :=
  match r.pump.step w c r.request s with
  | (none, p, s) => ({ r with pump := p }, s)
  | (some result, p, s) => ({ r with leg := .dismissing result, pump := p }, s)

/-- After a completed run the workers finish what is left; after any other one it is discarded. -/
def dismiss (result : Result) (r : Run) (s : World σ) : Run × World σ :=
  match result with
  | .ok .completed => (r.go (.shutting result), s)
  | _ => (r.go (.emptying result), s.onPool .discard)

/-- Drops a task, as long as the backlog has one. -/
def empty (result : Result) (r : Run) (s : World σ) : Run × World σ :=
  match s.drop? with
  | some s => (r, s)
  | none => (r.go (.shutting result), s)

/-- Whether there is a point in time until which the workers may take to leave. -/
def hasDeadline (w : Surroundings σ) (c : Settings) (s : World σ) : Bool := (w.uptime s + c.drainInterval).isPoint

def shut (w : Surroundings σ) (c : Settings) (result : Result) (r : Run) (s : World σ) : Run × World σ :=
  if hasDeadline w c s then (r.go (.tallying result), s.onPool .close)
  else (r.go (.crashed result), s.onPool .close)

def discarded (s : World σ) : Nat := (s.panel.pool.map (·.counters.discarded)).getD 0

def noteDiscarded (result : Result) (s : World σ) : World σ :=
  match result with
  | .ok .completed => s
  | _ => s.onState fun t => { t with discarded := discarded s }

/-- Tallies what has completed and was not yet received; it is too late for errors. -/
def tallyRest : Nat → World σ → World σ
  | 0, s => s
  | n + 1, s =>
    match s.receive with
    | (none, s) => s
    | (some done, s) => tallyRest n (s.onState (tally done))

def unreceived (s : World σ) : Nat :=
  (s.panel.pool.map fun q => q.completions.length - q.received).getD 0

/-- The panel lets go of the worker pool, and what is left there is counted. -/
def tallyAll (result : Result) (s : World σ) : World σ :=
  let s := noteDiscarded result s
  tallyRest (unreceived s) { s with panel := s.panel.detach }

/-- Only work that was completed is followed by the last hook. -/
def afterWork : Result → Leg
  | .ok .completed => .hooking .postBatch (.closing (.ok .completed))
  | result => .closing result

def close (w : Surroundings σ) (queue : Staging) (s : World σ) : World σ :=
  w.closeEndpoints (w.closeSource (w.keep (queue.close (w.disk s)).2.isOpen s))

def phaseOf : Result → Control.Phase
  | .ok .completed => .completed
  | .ok .stopped => .stopped
  | .error _ => .failed

def terminatedBy? : Result → Option String
  | .ok .completed => none
  | .ok .stopped => some "stop requested"
  | .error e => some e.message

def slowest (s : World σ) : List Timing := (s.panel.pool.map (·.slowest.toList)).getD []

def report (w : Surroundings σ) (result : Result) (s : World σ) : Control.Report :=
  ⟨s.state.snapshot (w.now s), slowest s, terminatedBy? result⟩

/-- The report is also kept in the state, where it is even when the run fails. -/
def file (report : Control.Report) (result : Result) (r : Run) (s : World σ) : Run × World σ :=
  (r.go (.over (result.map fun _ => report)), s.onState fun t => { t with report := some report })

/-- Others act, and then the run makes one step. -/
def step (w : Surroundings σ) (c : Ready) (r : Run) (s : World σ) : Run × World σ :=
  let s := w.meanwhile r.moment s
  match r.leg with
  | .starting => (r.go .opening, s.onState fun t => { t with started := some (w.now s) })
  | .opening => r.openSource w c.vars s
  | .hooking stage next => r.runHook w stage next s
  | .weighing => (r.go (course c.settings s.state.total), s)
  | .launching => (r.go .launched, s.move .running)
  | .launched => (r.go .staffing, if s.state.paused then s.move .paused else s)
  | .staffing => r.staff w c.settings s
  | .pumping => r.pumpOn w c.settings s
  | .dismissing result => r.dismiss result s
  | .emptying result => r.empty result s
  | .shutting result => r.shut w c.settings result s
  | .tallying result => (r.go (afterWork result), tallyAll result s)
  | .closing result => (r.go (.ending result), close w r.pump.queue s)
  | .ending result => (r.go (.reporting result), s.move (phaseOf result))
  | .reporting result => r.file (report w result s) result s
  | .over _ | .crashed _ => (r, s)

/-- As many steps as it takes, but no more than the given number. -/
def steps (w : Surroundings σ) (c : Ready) : Nat → Run → World σ → Run × World σ
  | 0, r, s => (r, s)
  | n + 1, r, s =>
    if r.isOver then (r, s)
    else
      let (r, s) := r.step w c s
      steps w c n r s

@[simp] theorem leg_go (r : Run) (leg : Leg) : (r.go leg).leg = leg := rfl

@[simp] theorem pump_go (r : Run) (leg : Leg) : (r.go leg).pump = r.pump := rfl

theorem steps_of_isOver {w : Surroundings σ} {c : Ready} {n : Nat} {r : Run} {s : World σ} (h : r.isOver) :
    steps w c n r s = (r, s) := by
  cases n with
  | zero => rfl
  | succ n => rw [steps, if_pos h]

theorem steps_succ {w : Surroundings σ} {c : Ready} {n : Nat} {r : Run} {s : World σ} (h : ¬ r.isOver) :
    steps w c (n + 1) r s = steps w c n (r.step w c s).1 (r.step w c s).2 := by
  rw [steps, if_neg h]

theorem isFinal_phaseOf (result : Result) : (phaseOf result).isFinal = true := by
  rcases result with _ | (_ | _) <;> rfl

end Run

/-- A run of the job, as far as the given number of steps takes it. -/
def Ready.run {σ : Type} (w : Surroundings σ) (c : Ready) (steps : Nat) (s : World σ) :
    Run × World σ :=
  Run.steps w c steps (.start c.queue) s

end BatchJob.Job
