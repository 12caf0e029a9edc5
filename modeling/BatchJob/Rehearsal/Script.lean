import BatchJob.Control.Panel
import BatchJob.Endpoint.Request
import BatchJob.Source.Lines
import BatchJob.Source.Listed

/-! Scripts for the surroundings of a job: what its source, its executor and its hooks are to do, and
what is to be done to the job meanwhile. -/
namespace BatchJob.Rehearsal
open Control

/-- What a script can wait for. -/
inductive Condition where
  | paused
  | resumed
  | stopped
  | threads (count : Nat)
  deriving DecidableEq, Repr

def Condition.holds (s : State) : Condition → Bool
  | paused => s.paused
  | resumed => !s.paused
  | stopped => s.stopRequested
  | threads count => s.threadCount = count

inductive Action where
  | request (r : Control.Request)
  | move (phase : Phase)
  | write (path : String) (content : List UInt8)
  | remove (path : String)
  | await (c : Condition)
  | idle (d : Duration)
  | advance (d : Duration)
  | desk (r : Endpoint.Request)
  deriving Repr

/-- What an action shows. -/
inductive Effect where
  | done
  | told (b : Bool)
  | desk (r : Endpoint.Response)
  deriving DecidableEq, Repr

inductive Origin where
  | listed (s : ListSource)
  | lines (s : LineSource)
  deriving Repr

namespace Origin

def start (o : Origin) (fs : Files) : Except String Unit × Origin :=
  match o with
  | listed s => (.ok (), listed s.start)
  | lines s => ((s.start fs).1.mapError (·.message), lines (s.start fs).2)

def total : Origin → Nat
  | listed s => s.total
  | lines s => s.total

def batchRef : Origin → Option String
  | listed s => s.batchRef
  | lines _ => none

def next (o : Origin) (fs : Files) : Except String (Option String) × Origin :=
  match o with
  | listed s => (.ok s.next.1, listed s.next.2)
  | lines s => ((s.next fs).1.mapError (·.message), lines (s.next fs).2)

def close : Origin → Origin
  | listed s => listed s
  | lines s => lines s.close

end Origin

abbrev Schedule := List (Nat × List Action)

def Schedule.at (s : Schedule) (n : Nat) : List Action := (s.lookup n).getD []

structure SourceScript where
  origin : Origin
  total : Option Nat
  failOpen : Option String
  failAt : Option Nat
  schedule : Schedule
  pulls : Nat
  deriving Repr

/-- `lines` are the first calls, with the time each takes and its outcome. After them endpoints that
are `down` fail, and so do units whose identifier has one of the fragments in `reject`. -/
structure ExecutorScript where
  time : Duration
  schedule : Schedule
  lines : List (Duration × Work.Outcome)
  down : List String
  reject : List String
  deriving Repr

structure HookScript where
  actions : List Action
  problem : Option String
  deriving Repr

end BatchJob.Rehearsal
