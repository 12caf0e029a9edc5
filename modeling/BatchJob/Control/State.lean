import BatchJob.Control.Phase
import BatchJob.Number.Binary64
import BatchJob.Worker.Ranking

/-! What is known of a job while it runs, and the reports on it. -/
namespace BatchJob.Control

/-- The counters at one moment. -/
structure Snapshot where
  phase : Phase
  succeeded : Nat
  failed : Nat
  total : Nat
  discarded : Nat
  rate : Float
  paused : Bool
  threadCount : Nat
  elapsed : Duration
  deriving Repr

/-- `terminatedBy` says what ended a job that did not complete. -/
structure Report where
  snapshot : Snapshot
  slowest : List Worker.Timing
  terminatedBy : Option String
  deriving Repr

/-- `succeeded`, `failed` and `total` count identifiers, `discarded` counts units. -/
structure State where
  phase : Phase
  paused : Bool
  stopRequested : Bool
  threadCount : Nat
  succeeded : Nat
  failed : Nat
  total : Nat
  discarded : Nat
  started : Option Duration
  report : Option Report
  deriving Repr

namespace State

def fresh (threadCount : Nat) : State := ⟨.init, false, false, threadCount, 0, 0, 0, 0, none, none⟩

def move (s : State) (next : Phase) : Bool × State :=
  ((s.phase.move next).1, { s with phase := (s.phase.move next).2 })

def moved (s : State) (next : Phase) : State := (s.move next).2

def elapsed (s : State) (now : Duration) : Duration :=
  match s.started with
  | none => .zero
  | some started => now - started

def snapshot (s : State) (now : Duration) : Snapshot where
  phase := s.phase
  succeeded := s.succeeded
  failed := s.failed
  total := s.total
  discarded := s.discarded
  rate := Number.perSecond (s.succeeded + s.failed) (s.elapsed now)
  paused := s.paused
  threadCount := s.threadCount
  elapsed := s.elapsed now

end State
end BatchJob.Control
