import BatchJob.Settings.Basic
import BatchJob.Worker.Counters
import BatchJob.Worker.Ranking
import BatchJob.Worker.Task

/-! A pool of workers with a bounded backlog. The moves of the workers and the requests of the clients are steps on one
state; any order of steps that are possible may happen. A worker can always be started. -/
namespace BatchJob.Worker
open Work

/-- The gate that workers pass before they start a unit. -/
structure Gate where
  closed : Bool
  deriving DecidableEq, Repr

namespace Gate

def opened : Gate := ⟨false⟩

/-- Also tells whether the gate was open before. -/
def close (g : Gate) : Bool × Gate := (!g.closed, ⟨true⟩)

/-- Also tells whether the gate was closed before. -/
def reopen (g : Gate) : Bool × Gate := (g.closed, opened)

def pass? (g : Gate) : Option Bool := if g.closed then none else some false

end Gate

/-- `blocked` are the tasks that wait for room in the backlog, and `submissions` are all that ever were,
by their serials. A token sends one worker into
retirement, and `target` is how many workers there are to be in the end. `accepting` tells that the
pool itself may still put tasks into the backlog. Of the `completions`, all that ever were, the first
`received` have been received. -/
structure Pool where
  depth : Nat
  backlog : List Task
  blocked : List Task
  hands : List Hand
  nextHand : Nat
  tokens : Nat
  target : Int
  gate : Gate
  discarding : Bool
  shut : Bool
  accepting : Bool
  counters : Counters
  submissions : List Submission
  completions : List Completed
  received : Nat
  slowest : Ranking
  deriving DecidableEq, Repr

namespace Pool

def count (p : Pool) (f : Counters → Counters) : Pool := { p with counters := f p.counters }

def isRunning (p : Pool) : Bool := !p.shut

def spawn (p : Pool) : Pool :=
  { p with
    hands := p.hands ++ [⟨p.nextHand, .arriving⟩]
    nextHand := p.nextHand + 1
    target := p.target + 1 }

def spawnMany : Nat → Pool → Pool
  | 0, p => p
  | n + 1, p => spawnMany n p.spawn

def moveTo (p : Pool) (id : Nat) (s : Station) : Pool :=
  { p with hands := p.hands.map fun h => if h.id = id then ⟨id, s⟩ else h }

def exit (p : Pool) (id : Nat) : Pool := { p with hands := p.hands.filter (·.id ≠ id) }

def empty (s : Settings) : Pool where
  depth := s.depth
  backlog := []
  blocked := []
  hands := []
  nextHand := 0
  tokens := 0
  target := 0
  gate := .opened
  discarding := false
  shut := false
  accepting := true
  counters := .zero
  submissions := []
  completions := []
  received := 0
  slowest := .empty s.slowest

def create (s : Settings) : Except PoolError Pool :=
  match s.problem? with
  | some problem => .error (.invalidSettings problem)
  | none => .ok (spawnMany s.workers (empty s))

@[simp] theorem target_spawn (p : Pool) : p.spawn.target = p.target + 1 := rfl

@[simp] theorem length_hands_spawn (p : Pool) : p.spawn.hands.length = p.hands.length + 1 := by
  simp [spawn]

@[simp] theorem target_spawnMany (n : Nat) (p : Pool) : (spawnMany n p).target = p.target + n := by
  induction n generalizing p with
  | zero => simp [spawnMany]
  | succ n ih => simp only [spawnMany, ih, target_spawn]; omega

@[simp] theorem length_hands_spawnMany (n : Nat) (p : Pool) :
    (spawnMany n p).hands.length = p.hands.length + n := by
  induction n generalizing p with
  | zero => simp [spawnMany]
  | succ n ih => simp only [spawnMany, ih, length_hands_spawn]; omega

@[simp] theorem length_hands_moveTo (p : Pool) (id : Nat) (s : Station) :
    (p.moveTo id s).hands.length = p.hands.length := by simp [moveTo]

def pause (p : Pool) : Pool := { p with gate := p.gate.close.2 }

def resume (p : Pool) : Pool := { p with gate := p.gate.reopen.2 }

@[simp] theorem closed_pause (p : Pool) : p.pause.gate.closed = true := rfl

@[simp] theorem closed_resume (p : Pool) : p.resume.gate.closed = false := rfl

def setReply (p : Pool) (serial : Nat) (r : Reply) : Pool :=
  { p with submissions := p.submissions.modify serial fun s => { s with reply := r } }

def reply (p : Pool) (serial : Nat) : Reply := ((p.submissions[serial]?).map (·.reply)).getD .dropped

/-- The outcome of a submission can be fetched once. -/
def fetch (p : Pool) (serial : Nat) : Except PoolError Outcome × Pool :=
  match p.reply serial with
  | .pending => (.error .timeout, p)
  | .answered o => (.ok o, p.setReply serial (.fetched o))
  | .fetched _ => (.error .cancelled, p)
  | .dropped => (.error .cancelled, p)
  | .refused => (.error .cancelled, p)

def receive (p : Pool) : Option Completed × Pool :=
  match p.completions[p.received]? with
  | none => (none, p)
  | some c => (some c, { p with received := p.received + 1 })

@[simp] theorem length_submissions_setReply (p : Pool) (serial : Nat) (r : Reply) :
    (p.setReply serial r).submissions.length = p.submissions.length := by simp [setReply]

theorem reply_setReply {p : Pool} {serial : Nat} (h : serial < p.submissions.length) (r : Reply) :
    (p.setReply serial r).reply serial = r := by simp [reply, setReply, h]

theorem reply_setReply_of_ne {p : Pool} {serial other : Nat} (h : serial ≠ other) (r : Reply) :
    (p.setReply serial r).reply other = p.reply other := by simp [reply, setReply, h]

end Pool
end BatchJob.Worker
