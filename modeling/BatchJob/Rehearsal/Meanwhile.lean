import BatchJob.Rehearsal.Parts
import BatchJob.Worker.Schedule

/-! What goes on around a scripted job while it is at work or waits. -/
namespace BatchJob.Rehearsal.Play
open Job

def workOn (p : Play) (id : Nat) (t : Worker.Task) : Play :=
  let (outcome, p) := attempts.run p.rest.settings.retries t.unit p
  p.onPool fun q => (q.move? id (.running t) (.finish outcome)).getD q

def running? (h : Worker.Hand) : Option (Nat × Worker.Task) :=
  h.station.running?.map fun t => (h.id, t)

/-- Some worker moves; no unit is worked on as long as anything else can move. -/
def advanceWorkers? (p : Play) : Option Play :=
  match p.panel.pool with
  | none => none
  | some q =>
    match q.advance? fun _ => none with
    | some q => some (p.setPool q)
    | none => (q.hands.findSome? running?).map fun (id, t) => p.workOn id t

/-- Workers move until it is enough, or as often as given, or until none can move. -/
def advanceUntil (enough : Worker.Pool → Bool) : Nat → Play → Play
  | 0, p => p
  | n + 1, p =>
    if p.panel.pool.any enough then p
    else
      match p.advanceWorkers? with
      | none => p
      | some p => advanceUntil enough n p

def moves (p : Play) : Nat := (p.panel.pool.map (·.moves)).getD 0

def hasCompletion (q : Worker.Pool) : Bool := q.received < q.completions.length

/-- Workers move until it is enough. When they cannot, the command file may help. -/
def await (enough : Worker.Pool → Bool) (p : Play) : Play :=
  let p := p.conclude
  let p := advanceUntil enough p.moves p
  if p.panel.pool.any enough then p else p.watch

/-- Workers move only when the job waits for them. -/
def meanwhile : Moment → Play → Play
  | .working, p => p
  | .sending, p => p.await (·.blocked.isEmpty)
  | .waiting, p => p.await hasCompletion
  | .closing, p => advanceUntil (fun _ => false) p.moves p.conclude

def keep (isOpen : Bool) (p : Play) : Play :=
  let (backing, files) := p.rest.backing.keep isOpen p.rest.files
  p.onSite fun s => { s with backing := backing, files := files }

def surroundings (hooks : Stage → Option HookScript) : Surroundings Site where
  now := now
  openSource := openSource
  total := total
  batchRef := fun p => p.rest.source.origin.batchRef
  next := next
  closeSource := closeSource
  hook := fun stage => (hooks stage).map runHook
  closeEndpoints := fun p => setDesk (p.rest.desk.onPool .close) p
  disk := fun p => p.rest.backing.disk p.rest.files
  keep := keep
  meanwhile := meanwhile

end BatchJob.Rehearsal.Play
