import BatchJob.Worker.Resize
import BatchJob.Worker.Round

/-! One order in which the workers can move: in each round the first move that is possible. -/
namespace BatchJob.Worker.Pool
open Work

/-- The next move of a worker. `outcome?` tells the outcomes of the units that are finished. -/
def act? (p : Pool) (outcome? : Task → Option Outcome) (h : Hand) : Option Pool :=
  let move? := p.move? h.id h.station
  match h.station with
  | .arriving => move? .pass
  | .looking => move? .look
  | .choosing => move? .claim <|> move? .retire <|> move? .leave
  | .holding _ => move? .pass
  | .starting _ => move? .start
  | .running t => (outcome? t).bind fun o => move? (.finish o)

/-- Those who wait for room go first, in their order. -/
def advance? (p : Pool) (outcome? : Task → Option Outcome) : Option Pool :=
  (p.blocked.head?.bind fun t => p.admit? t.serial) <|> p.hands.findSome? (p.act? outcome?)

def advanceFor (outcome? : Task → Option Outcome) : Nat → Pool → Pool
  | 0, p => p
  | n + 1, p =>
    match p.advance? outcome? with
    | none => p
    | some q => advanceFor outcome? n q

/-- How many moves a pool left alone has at most: six to a round, one round to a task, and for each
worker the rest of a round and a last one. -/
def moves (p : Pool) : Nat := 7 * (p.backlog.length + p.blocked.length) + 12 * p.hands.length

def settle (outcome? : Task → Option Outcome) (p : Pool) : Pool := p.advanceFor outcome? p.moves

def giveUpFor : List Task → Pool → Pool
  | [], p => p
  | t :: rest, p => giveUpFor rest ((p.giveUp? t.serial).getD p)

/-- All who wait for room look at once whether the pool was shut. -/
def giveUpAll (p : Pool) : Pool := p.giveUpFor p.blocked

end BatchJob.Worker.Pool
