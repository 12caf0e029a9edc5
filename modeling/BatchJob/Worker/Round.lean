import BatchJob.Worker.Backlog

/-! The round of a worker: through the gate to the backlog, with a task through the gate again, and
back when the unit is done. -/
namespace BatchJob.Worker
open Work

inductive Move where
  | pass
  | look
  | claim
  | retire
  | leave
  | start
  | finish (o : Outcome)
  deriving DecidableEq, Repr

namespace Pool

def claim? (p : Pool) (id : Nat) : Option Pool :=
  match p.backlog with
  | [] => none
  | t :: rest => some (({ p with backlog := rest } : Pool).moveTo id (.holding t))

def retire? (p : Pool) (id : Nat) : Option Pool :=
  if p.tokens = 0 then none else some (({ p with tokens := p.tokens - 1 } : Pool).exit id)

/-- A task whose turn came after all is dropped with its worker when the pool discards. -/
def start (p : Pool) (id : Nat) (t : Task) : Pool :=
  if p.discarding then ((p.count .discard).setReply t.serial .dropped).exit id
  else (p.count .start).moveTo id (.running t)

def finish (p : Pool) (id : Nat) (t : Task) (o : Outcome) : Pool :=
  let q : Pool := { p with
    slowest := p.slowest.insert ⟨t.unit.identifier, o.elapsed⟩
    completions := p.completions ++ [⟨t, o⟩] }
  ((q.count (·.finish o.isSuccess)).setReply t.serial (.answered o)).moveTo id .arriving

def move? (p : Pool) (id : Nat) : Station → Move → Option Pool
  | .arriving, .pass => if p.gate.closed then none else some (p.moveTo id .looking)
  | .looking, .look => some (if p.discarding then p.exit id else p.moveTo id .choosing)
  | .choosing, .claim => p.claim? id
  | .choosing, .retire => p.retire? id
  | .choosing, .leave => if p.isExhausted then some (p.exit id) else none
  | .holding t, .pass => if p.gate.closed then none else some (p.moveTo id (.starting t))
  | .starting t, .start => some (p.start id t)
  | .running t, .finish o => some (p.finish id t o)
  | _, _ => none

end Pool
end BatchJob.Worker
