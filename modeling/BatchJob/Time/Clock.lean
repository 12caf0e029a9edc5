import BatchJob.Time.Duration

/-! A clock that is moved by hand, and by those who sleep on it. -/
namespace BatchJob

structure Clock where
  now : Duration
  frozen : Bool
  sleeps : List Duration
  deriving DecidableEq, Repr

namespace Clock

def start (frozen : Bool) : Clock := ⟨.zero, frozen, []⟩

def advance (c : Clock) (d : Duration) : Clock := { c with now := c.now + d }

/-- Every sleep is noted, oldest first; only a frozen clock stays where it is. -/
def sleep (c : Clock) (d : Duration) : Clock :=
  { c with now := if c.frozen then c.now else c.now + d, sleeps := c.sleeps ++ [d] }

def forgetSleeps (c : Clock) : Clock := { c with sleeps := [] }

@[simp] theorem now_advance (c : Clock) (d : Duration) : (c.advance d).now = c.now + d := rfl

@[simp] theorem now_sleep (c : Clock) (d : Duration) :
    (c.sleep d).now = if c.frozen then c.now else c.now + d := rfl

@[simp] theorem frozen_sleep (c : Clock) (d : Duration) : (c.sleep d).frozen = c.frozen := rfl

@[simp] theorem sleeps_sleep (c : Clock) (d : Duration) : (c.sleep d).sleeps = c.sleeps ++ [d] := rfl

end Clock
end BatchJob
