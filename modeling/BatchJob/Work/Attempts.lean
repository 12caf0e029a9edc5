import BatchJob.Endpoint.Desk
import BatchJob.Text.Basic
import BatchJob.Work.Outcome
import BatchJob.Work.Unit

/-! Executing a unit: every attempt gets an endpoint of its own, and failures are retried as the
retry policy allows. -/
namespace BatchJob.Work
open Endpoint

/-- `endpointLimit` bounds the failed endpoints of a unit that are followed by another one, and
`unitLimit` the retries after the unit itself failed with one of the `messages`. -/
structure RetryPolicy where
  endpointLimit : Nat
  unitLimit : Nat
  unitInterval : Duration
  messages : List String
  deriving DecidableEq, Repr

def RetryPolicy.default : RetryPolicy := ⟨3, 2, .ofSeconds 20, []⟩

/-- Some message that is not empty occurs in the detail of the failure. -/
def RetryPolicy.retryable (p : RetryPolicy) : Option String → Bool
  | none => false
  | some detail => p.messages.any fun m => m ≠ "" && Text.occursIn m detail

/-- What the attempts at a unit need from a state that they share with others. -/
structure Attempts (σ : Type) where
  acquire : σ → Except Refusal Endpoint × σ
  execute : WorkUnit → Endpoint → σ → Outcome × σ
  now : σ → Duration
  sleep : Duration → σ → σ
  hold : Endpoint → σ → σ
  release : Endpoint → σ → σ
  succeed : Endpoint → σ → σ
  fail : Endpoint → Duration → σ → σ

namespace Attempts
variable {σ : Type}

/-- One attempt on an endpoint that was handed out: its outcome and the time it was handed out. -/
def attempt (a : Attempts σ) (unit : WorkUnit) (e : Endpoint) (s : σ) : Outcome × Duration × σ :=
  let leased := a.now s
  let (outcome, s) := a.execute unit e (a.hold e s)
  (outcome, leased, a.release e s)

/-- Attempts at a unit since `started`, after so many failed endpoints and so many retries of the
unit. Of the two numbers one grows with every further attempt. -/
def runFrom (a : Attempts σ) (p : RetryPolicy) (unit : WorkUnit) (started : Duration)
    (failures retries : Nat) (s : σ) : Outcome × σ :=
  match a.acquire s with
  | (.error refusal, s) =>
    (.failure (.poolExhausted refusal.waits) (a.now s - started) refusal.message, s)
  | (.ok e, s) =>
    let (outcome, leased, s) := a.attempt unit e s
    let final := outcome.withElapsed (a.now s - started)
    match outcome.status with
    | .succeeded => (final, a.succeed e s)
    | .failed .endpoint =>
      let s := a.fail e leased s
      if failures < p.endpointLimit then runFrom a p unit started (failures + 1) retries s
      else (final, s)
    | .failed .unit =>
      let s := a.succeed e s
      if retries < p.unitLimit ∧ p.retryable outcome.detail then
        runFrom a p unit started failures (retries + 1) (a.sleep p.unitInterval s)
      else (final, s)
    | .failed (.poolExhausted _) => (final, s)
termination_by (p.endpointLimit - failures) + (p.unitLimit - retries)

def run (a : Attempts σ) (p : RetryPolicy) (unit : WorkUnit) (s : σ) : Outcome × σ :=
  a.runFrom p unit (a.now s) 0 0 s

/-- Attempts over a desk that is a part of the state. Leases are kept only where the policy of the
pool asks for them. -/
def atDesk (desk : σ → Desk) (put : Desk → σ → σ) (execute : WorkUnit → Endpoint → σ → Outcome × σ) :
    Attempts σ :=
  let onDesk (f : Desk → Desk) (s : σ) : σ := put (f (desk s)) s
  let onPool (f : Pool → Pool) : σ → σ := onDesk (·.onPool f)
  let ifLoad (f : σ → σ) (s : σ) : σ :=
    if (desk s).pool.settings.policy = .load then f s else s
  { acquire := fun s =>
      let (answer, d) := (desk s).get
      (answer, put d s)
    execute := execute
    now := fun s => (desk s).now
    sleep := fun t => onDesk (.sleep t)
    hold := fun e => ifLoad (onPool (·.hold e))
    release := fun e => ifLoad (onPool (·.release e))
    succeed := fun e => onPool (·.succeed e)
    fail := fun e leased => onDesk (·.fail e (some leased)) }

end Attempts
end BatchJob.Work
