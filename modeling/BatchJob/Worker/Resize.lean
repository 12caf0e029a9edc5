import BatchJob.Worker.Backlog

/-! Changing the number of workers, step by step: tokens for those who are to retire; tokens taken
back and new workers for those who are missing. -/
namespace BatchJob.Worker

/-- What a request for another number of workers has still to do. -/
inductive Resize where
  | asked (count : Nat)
  | retiring (more : Nat)
  | reclaiming (more : Nat)
  | spawning (more : Nat)
  | done
  deriving DecidableEq, Repr

namespace Resize

def step (p : Pool) : Resize → Resize × Pool
  | asked count =>
    if p.target < count then (reclaiming (count - p.target).toNat, p)
    else (retiring (p.target - count).toNat, p)
  | retiring 0 => (done, p)
  | retiring (n + 1) => (retiring n, { p with tokens := p.tokens + 1, target := p.target - 1 })
  | reclaiming 0 => (done, p)
  | reclaiming (n + 1) =>
    if p.tokens = 0 then (spawning (n + 1), p)
    else (reclaiming n, { p with tokens := p.tokens - 1, target := p.target + 1 })
  | spawning 0 => (done, p)
  | spawning (n + 1) => (spawning n, p.spawn)
  | done => (done, p)

def size (p : Pool) : Resize → Nat
  | asked count => (p.target - count).natAbs + 3
  | retiring n => n + 1
  | reclaiming n => n + 2
  | spawning n => n + 1
  | done => 0

def finish : Nat → Resize → Pool → Pool
  | 0, _, p => p
  | n + 1, r, p => finish n (r.step p).1 (r.step p).2

def steps : Nat → Resize → Pool → Resize × Pool
  | 0, r, p => (r, p)
  | n + 1, r, p => steps n (r.step p).1 (r.step p).2

end Resize

namespace Pool

/-- Nobody can ask for no workers at all, nor of a pool that is shut. -/
def resizable (p : Pool) (count : Nat) : Except PoolError Unit :=
  if count = 0 then .error (.invalidSettings "worker count must be greater than 0")
  else if p.shut then .error .shutDown
  else .ok ()

/-- A request that nobody else interferes with. -/
def setWorkers (p : Pool) (count : Nat) : Except PoolError Unit × Pool :=
  match p.resizable count with
  | .error e => (.error e, p)
  | .ok () => (.ok (), Resize.finish ((Resize.asked count).size p) (.asked count) p)

end Pool
end BatchJob.Worker
