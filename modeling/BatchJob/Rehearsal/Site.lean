import BatchJob.Control.Watcher
import BatchJob.Job.Surroundings
import BatchJob.Rehearsal.Script
import BatchJob.Worker.Schedule

/-! The place where a scripted job plays, and what can be done to the job from there. -/
namespace BatchJob.Rehearsal
open Control Job

inductive Note where
  | hook (o : Occasion)
  | sourceClosed
  deriving Repr

/-- The clocks on a site: one for all that the script moves, a live one for all, or a live one for
the job beside the one that the script moves, at the desk. Ideally nothing but sleeping takes time on
a live clock. -/
inductive Timing where
  | scripted
  | live
  | divided (own : Clock)
  deriving DecidableEq, Repr

/-- Only the pool of a shared desk can be on another clock than the job. -/
def Timing.start (isLive deskShared : Bool) : Timing :=
  match isLive, deskShared with
  | false, _ => scripted
  | true, false => live
  | true, true => divided (.start false)

/-- What is left of the requests of a command file: to change the number of workers, which takes its time, and what
comes after that. -/
structure Errand where
  resize : Worker.Resize
  rest : List Control.Request
  deriving DecidableEq, Repr

namespace Errand

def startTime : Duration := ⟨25000⟩

def stepsIn (time : Duration) : Nat := time.nanos / startTime.nanos

/-- The number of workers that a request asks for, where there is a pool that can be changed. -/
def asked? (p : Panel) : Control.Request → Option Nat
  | .setThreads n => if p.attached ∧ p.pool.any fun q => (q.resizable n).isOk then some n else none
  | _ => none

/-- Requests are handled one after the other, up to one that takes its time. -/
def undertake : List Control.Request → Panel → Option Errand × Panel
  | [], p => (none, p)
  | r :: rest, p =>
    match asked? p r with
    | some n => (some ⟨.asked n, rest⟩, p.onState fun s => { s with threadCount := n })
    | none => undertake rest (p.handle r)

def finish (e : Errand) (p : Panel) : Panel :=
  e.rest.foldl .handle (p.onPool fun q => e.resize.finish (e.resize.size q) q)

/-- An errand after so many steps, if it is not done by then. -/
def goOn (steps : Nat) (e : Errand) (p : Panel) : Option Errand × Panel :=
  match p.pool with
  | none => (none, e.finish p)
  | some q =>
    let (resize, q) := e.resize.steps steps q
    let e : Errand := ⟨resize, e.rest⟩
    let p : Panel := { p with pool := some q }
    if e.resize = .done then (none, e.finish p) else (some e, p)

end Errand

/-- `deskShared` tells that actions reach the endpoint pool, and `errand` is what the watcher of the command file has
begun. -/
structure Site where
  settings : Settings
  files : Files
  backing : Queue.Backing
  desk : Endpoint.Desk
  deskShared : Bool
  timing : Timing
  watcher : Watcher
  errand : Option Errand
  source : SourceScript
  executor : ExecutorScript
  calls : List (WorkUnit × Endpoint)
  notes : List Note

def Site.sleeps (s : Site) : List Duration := if s.timing = .live then [] else s.desk.clock.sleeps

abbrev Play := World Site

namespace Play

def onSite (p : Play) (f : Site → Site) : Play := ⟨p.panel, f p.rest⟩

def onFiles (p : Play) (f : Files → Files) : Play := p.onSite fun s => { s with files := f s.files }

def setDesk (d : Endpoint.Desk) (p : Play) : Play := p.onSite fun s => { s with desk := d }

def onDeskClock (p : Play) (f : Clock → Clock) : Play :=
  p.onSite fun s => { s with desk := { s.desk with clock := f s.desk.clock } }

def now (p : Play) : Duration :=
  match p.rest.timing with
  | .divided own => own.now
  | _ => p.rest.desk.now

def sleep (d : Duration) (p : Play) : Play :=
  match p.rest.timing with
  | .divided own => p.onSite fun s => { s with timing := .divided (own.sleep d) }
  | _ => p.onDeskClock (·.sleep d)

def advance (p : Play) (d : Duration) : Play :=
  match p.rest.timing with
  | .live => p
  | _ => p.onDeskClock (·.advance d)

def pass (p : Play) (d : Duration) : Play :=
  match p.rest.timing with
  | .scripted => p
  | _ => p.sleep d

def note (p : Play) (n : Note) : Play := p.onSite fun s => { s with notes := s.notes ++ [n] }

def conclude (p : Play) : Play :=
  match p.rest.errand with
  | none => p
  | some e => ⟨e.finish p.panel, { p.rest with errand := none }⟩

def goOn (time : Duration) (p : Play) : Play :=
  match p.rest.errand with
  | none => p
  | some e =>
    let (errand, panel) := e.goOn (Errand.stepsIn time) p.panel
    ⟨panel, { p.rest with errand := errand }⟩

def glance (p : Play) : Play :=
  match p.rest.settings.commandFile with
  | none => p
  | some path =>
    if p.panel.attached then
      match p.rest.watcher.see (p.rest.files.read path).toOption with
      | (none, watcher) => ⟨p.panel, { p.rest with watcher := watcher }⟩
      | (some directives, watcher) =>
        let (errand, panel) := Errand.undertake (directives.requests p.panel.state.threadCount) p.panel
        ⟨panel, { p.rest with watcher := watcher, errand := errand }⟩
    else p

def watch (p : Play) : Play := p.conclude.glance.conclude

/-- Workers get ready for what comes next, but no unit is done. -/
def rouse (p : Play) : Play := p.onPool (·.settle fun _ => none)

/-- While nothing else happens the command file is looked at when it is time, and the workers get ready. -/
def idle (d : Duration) (p : Play) : Play :=
  let interval := p.rest.settings.commandPollInterval
  (if interval ≤ d then p.conclude.glance.goOn (d - interval) else p.goOn d).rouse

/-- To change the number of workers takes its time, and so the watcher has time as well. -/
def request (p : Play) : Control.Request → Effect × Play
  | .stop => (.told p.panel.stop.1, ⟨p.panel.stop.2, p.rest⟩)
  | .setThreads n => (.done, conclude ⟨p.panel.setThreads n, p.rest⟩)
  | r => (.done, ⟨p.panel.handle r, p.rest⟩)

def atDesk (p : Play) (r : Endpoint.Request) : Effect × Play :=
  if p.rest.deskShared then
    let (response, desk) := p.rest.desk.handle r
    (.desk response, p.setDesk desk)
  else (.done, p)

def act (p : Play) : Action → Effect × Play
  | .request r => p.request r
  | .move phase =>
    let (moved, state) := p.panel.state.move phase
    (.told moved, ⟨{ p.panel with state := state }, p.rest⟩)
  | .write path content => (.done, p.onFiles (·.write path content))
  | .remove path => (.done, p.onFiles (·.remove path))
  | .await c => (.told (c.holds p.watch.panel.state), p.watch)
  | .idle d => (.done, (p.pass d).idle d)
  | .advance d => (.done, p.advance d)
  | .desk r => p.atDesk r

def actAll (p : Play) : List Action → List Effect × Play
  | [] => ([], p)
  | a :: rest =>
    let (effect, p) := p.act a
    let (effects, p) := actAll p rest
    (effect :: effects, p)

def doAll (p : Play) (actions : List Action) : Play := (p.actAll actions).2

end Play
end BatchJob.Rehearsal
