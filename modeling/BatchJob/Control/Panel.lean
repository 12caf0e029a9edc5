import BatchJob.Control.State
import BatchJob.Worker.Resize

/-! Requests to a job from outside. They are remembered in its state, and they reach the worker pool
while there is one attached. -/
namespace BatchJob.Control
open Worker

inductive Request where
  | pause
  | resume
  | stop
  | setThreads (count : Nat)
  deriving DecidableEq, Repr

/-- The job's worker pool, once there is one; requests reach it while it is attached. -/
structure Panel where
  state : State
  pool : Option Pool
  attached : Bool
  deriving Repr

namespace Panel

def fresh (threadCount : Nat) : Panel := ⟨.fresh threadCount, none, false⟩

def onState (p : Panel) (f : State → State) : Panel := { p with state := f p.state }

def onPool (p : Panel) (f : Pool → Pool) : Panel := { p with pool := p.pool.map f }

def onAttached (p : Panel) (f : Pool → Pool) : Panel := if p.attached then p.onPool f else p

def isFinal (p : Panel) : Bool := p.state.phase.isFinal

/-- Sets the flag, and moves a job that is in the phase `here` to the phase `there`. -/
def setPaused (paused : Bool) (here there : Phase) (s : State) : State :=
  let s := { s with paused := paused }
  if s.phase = here then s.moved there else s

/-- Units that run go on; no other unit starts. -/
def pause (p : Panel) : Panel :=
  if p.isFinal then p else (p.onState (setPaused true .running .paused)).onAttached .pause

def resume (p : Panel) : Panel :=
  if p.isFinal then p else (p.onState (setPaused false .paused .running)).onAttached .resume

/-- Only the first request does anything. Discarding comes first, so that opening the gate starts no
unit. -/
def stop (p : Panel) : Bool × Panel :=
  if p.state.stopRequested then (false, p)
  else
    (true, (p.onState fun s => { s with stopRequested := true, paused := false }).onAttached fun q =>
      q.discard.resume)

/-- No threads at all is no request. -/
def setThreads (p : Panel) (count : Nat) : Panel :=
  if count = 0 then p
  else (p.onState fun s => { s with threadCount := count }).onAttached fun q => (q.setWorkers count).2

def handle (p : Panel) : Request → Panel
  | .pause => p.pause
  | .resume => p.resume
  | .stop => p.stop.2
  | .setThreads count => p.setThreads count

/-- A new pool catches up with what was requested before. -/
def catchUp (s : State) (q : Pool) : Pool :=
  let q := if s.stopRequested then q.discard else q
  let q := if s.paused then q.pause else q
  if q.target = s.threadCount then q else (q.setWorkers s.threadCount).2

def attach (p : Panel) (q : Pool) : Panel := ⟨p.state, some (catchUp p.state q), true⟩

def detach (p : Panel) : Panel := { p with attached := false }

end Panel
end BatchJob.Control
