import BatchJob.Endpoint.Basic

/-! The pool of endpoints: who is free, whose turn it is, and what errors do. Every operation that depends on the time
takes the clock's reading. Errors and leases are counted in machine words, which start again at their end. -/
namespace BatchJob.Endpoint

/-- `errors` counts the errors since the last success. Both counters have 32 bits and wrap around. -/
structure Registration where
  endpoint : Endpoint
  errors : UInt32
  lastFailure : Option Duration
  leases : UInt32
  deriving DecidableEq, Repr

namespace Registration

def fresh (e : Endpoint) : Registration := ⟨e, 0, none, 0⟩

/-- What is left of the quarantine, or `none` for a free endpoint. -/
def quarantine? (s : Settings) (now : Duration) (r : Registration) : Option Duration :=
  if r.errors = 0 ∨ r.errors.toNat < s.retryLimit then none
  else
    match r.lastFailure with
    | none => none
    | some last =>
      if now - last < s.retryInterval then some (s.retryInterval - (now - last)) else none

def isFree (s : Settings) (now : Duration) (r : Registration) : Bool :=
  (r.quarantine? s now).isNone

def fail (now : Duration) (r : Registration) : Registration :=
  { r with errors := r.errors + 1, lastFailure := some now }

def recover (r : Registration) : Registration := { r with errors := 0, lastFailure := none }

def hold (r : Registration) : Registration := { r with leases := r.leases + 1 }

def release (r : Registration) : Registration :=
  { r with leases := if r.leases = 0 then 0 else r.leases - 1 }

/-- A failure is counted unless the endpoint failed after the lease was handed out. -/
def counts (r : Registration) : Option Duration → Bool
  | none => true
  | some leased =>
    match r.lastFailure with
    | none => true
    | some last => last ≤ leased

def sameTarget (e : Endpoint) (r : Registration) : Bool :=
  r.endpoint.address = e.address && r.endpoint.user = e.user

def isOf (e : Endpoint) (r : Registration) : Bool := sameTarget e r && r.endpoint.index = e.index

end Registration

/-- `cursor` is the place of the entry whose turn is next. -/
structure Pool where
  settings : Settings
  entries : List Registration
  cursor : Nat
  closed : Bool
  deriving DecidableEq, Repr

namespace Pool

/-- The endpoints are numbered in the order in which they are given. -/
def registered (endpoints : List Endpoint) : List Registration :=
  endpoints.mapIdx fun i e => .fresh { e with index := i }

def build (endpoints : List Endpoint) (s : Settings) : Except String Pool :=
  match s.problem? with
  | some problem => .error problem
  | none =>
    if endpoints = [] then .error "at least one endpoint must be configured"
    else .ok ⟨s, registered endpoints, 0, false⟩

def endpoints (p : Pool) : List Endpoint := p.entries.map (·.endpoint)

/-- The place of the registration that an endpoint stands for: its own, or else the first one with
the same address and user. -/
def position? (p : Pool) (e : Endpoint) : Option Nat :=
  p.entries.findIdx? (·.isOf e) <|> p.entries.findIdx? (·.sameTarget e)

def find? (p : Pool) (e : Endpoint) : Option Registration :=
  (p.position? e).bind (p.entries[·]?)

def modify (p : Pool) (e : Endpoint) (f : Registration → Registration) : Pool :=
  match p.position? e with
  | none => p
  | some i => { p with entries := p.entries.modify i f }

def rotation (p : Pool) : List Registration := p.entries.drop p.cursor ++ p.entries.take p.cursor

/-- The cursor stays with the entry whose turn it is, or passes on if that one is removed. -/
def removeAt (p : Pool) (i : Nat) : Pool :=
  let entries := p.entries.eraseIdx i
  let cursor := if i < p.cursor then p.cursor - 1 else p.cursor
  { p with entries := entries, cursor := if cursor < entries.length then cursor else 0 }

def free (p : Pool) (now : Duration) (i : Nat) : Bool :=
  p.entries[i]?.any (·.isFree p.settings now)

def freePlaces (p : Pool) (now : Duration) : List Nat :=
  (List.range p.entries.length).filter (p.free now)

/-- The first free entry from the cursor on, going round. -/
def turn? (p : Pool) (now : Duration) : Option Nat :=
  (p.rotation.findIdx? (·.isFree p.settings now)).map fun steps =>
    (p.cursor + steps) % p.entries.length

def leasesAt (p : Pool) (i : Nat) : UInt32 := (p.entries[i]?.map (·.leases)).getD 0

/-- The first of the places with the fewest leases. -/
def leastLoaded? (p : Pool) (places : List Nat) : Option Nat :=
  places.foldl (fun best i =>
    match best with
    | none => some i
    | some b => if p.leasesAt i < p.leasesAt b then some i else some b) none

/-- The place that the policy picks; `draw` decides where it picks at random. -/
def pick? (p : Pool) (now : Duration) (draw : Nat) : Option Nat :=
  match p.settings.policy with
  | .roundRobin => p.turn? now
  | .random => (p.freePlaces now)[draw % (p.freePlaces now).length]?
  | .load => p.leastLoaded? (p.freePlaces now)

/-- Only a turn moves the cursor. -/
def passTurn (p : Pool) (i : Nat) : Pool :=
  match p.settings.policy with
  | .roundRobin => { p with cursor := (i + 1) % p.entries.length }
  | _ => p

def select? (p : Pool) (now : Duration) (draw : Nat) : Option (Endpoint × Pool) := do
  let i ← p.pick? now draw
  let r ← p.entries[i]?
  return (r.endpoint, p.passTurn i)

def minOf? : List Duration → Option Duration
  | [] => none
  | d :: ds => some (ds.foldl min d)

def earliestRelease? (p : Pool) (now : Duration) : Option Duration :=
  minOf? (p.entries.filterMap (·.quarantine? p.settings now))

/-- A counted failure may reach the limit for removal; the last entry stays all the same. -/
def fail (p : Pool) (e : Endpoint) (leased : Option Duration) (now : Duration) : Pool :=
  match p.position? e with
  | none => p
  | some i =>
    match p.entries[i]? with
    | none => p
    | some r =>
      if r.counts leased then
        let failed := { p with entries := p.entries.set i (r.fail now) }
        match p.settings.removeAfter with
        | none => failed
        | some limit =>
          if limit ≤ (r.fail now).errors.toNat ∧ 1 < p.entries.length then failed.removeAt i else failed
      else p

def succeed (p : Pool) (e : Endpoint) : Pool := p.modify e .recover

def hold (p : Pool) (e : Endpoint) : Pool := p.modify e .hold

def release (p : Pool) (e : Endpoint) : Pool := p.modify e .release

/-- Also tells whether the endpoint was there. -/
def remove (p : Pool) (e : Endpoint) : Bool × Pool :=
  match p.position? e with
  | none => (false, p)
  | some i => (true, p.removeAt i)

/-- Closing takes all leases back, once. -/
def close (p : Pool) : Pool :=
  if p.closed then p
  else { p with closed := true, entries := p.entries.map fun r => { r with leases := 0 } }

def available (p : Pool) (now : Duration) : Bool :=
  !p.closed && p.entries.any (·.isFree p.settings now)

def errors? (p : Pool) (e : Endpoint) : Option UInt32 := (p.find? e).map (·.errors)

def leases? (p : Pool) (e : Endpoint) : Option UInt32 := (p.find? e).map (·.leases)

def quarantined (p : Pool) (e : Endpoint) (now : Duration) : Bool :=
  (p.find? e).any fun r => !r.isFree p.settings now

end Pool
end BatchJob.Endpoint
