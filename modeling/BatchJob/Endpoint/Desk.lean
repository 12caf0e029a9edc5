import BatchJob.Endpoint.Pool
import BatchJob.Time.Clock

/-! Where endpoints are asked for: the pool with the clock its callers read and sleep on. -/
namespace BatchJob.Endpoint

inductive Refusal where
  | exhausted (waits : Nat)
  | closed
  deriving DecidableEq, Repr

def Refusal.message : Refusal → String
  | exhausted waits => "endpoint pool exhausted after " ++ Text.decimal waits ++ " wait attempts"
  | closed => "endpoint pool is closed"

def Refusal.waits : Refusal → Nat
  | exhausted waits => waits
  | closed => 0

/-- `draws` numbers the selections; it stands for the chance in a random choice. -/
structure Desk where
  pool : Pool
  clock : Clock
  draws : Nat
  deriving Repr

inductive Answer where
  | granted (e : Endpoint) (pool : Pool)
  | refused (r : Refusal)
  | wait (d : Duration)

def minWait : Duration := .ofMillis 10

/-- One look at the pool after `waits` waits; with all of the endpoints in quarantine it asks to
wait for the first release. -/
def Pool.look (p : Pool) (now : Duration) (draw waits : Nat) : Answer :=
  if p.closed then .refused .closed
  else if p.entries = [] then .refused (.exhausted waits)
  else
    match p.select? now draw with
    | some (e, p) => .granted e p
    | none => .wait (max minWait ((p.earliestRelease? now).getD minWait))

namespace Desk

def now (d : Desk) : Duration := d.clock.now

def onPool (d : Desk) (f : Pool → Pool) : Desk := { d with pool := f d.pool }

def sleep (t : Duration) (d : Desk) : Desk := { d with clock := d.clock.sleep t }

/-- Looks again after each wait as long as the budget lasts; `nap` is what becomes of the desk
during a wait. -/
def acquire (nap : Duration → Desk → Desk) : (budget waits : Nat) → Desk →
    Except Refusal Endpoint × Desk
  | budget, waits, d =>
    match d.pool.look d.now d.draws waits with
    | .granted e pool => (.ok e, { d with pool := pool, draws := d.draws + 1 })
    | .refused r => (.error r, d)
    | .wait t =>
      match budget with
      | 0 => (.error (.exhausted waits), d)
      | budget + 1 => acquire nap budget (waits + 1) (nap t d)

def get (d : Desk) : Except Refusal Endpoint × Desk :=
  acquire sleep d.pool.settings.waitAttempts 0 d

def fail (d : Desk) (e : Endpoint) (leased : Option Duration) : Desk :=
  d.onPool (·.fail e leased d.now)

end Desk
end BatchJob.Endpoint
