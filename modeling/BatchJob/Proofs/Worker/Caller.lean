import BatchJob.Proofs.Worker.Staff

/-! Changing the number of workers while others do so too. A caller reads once how many there should be and goes by
that, whatever becomes of it; putting a token, taking one back and starting a worker are steps of their own, and how
many there should be is set right only after each. -/
namespace BatchJob.Worker
open Work

/-- How far a call has come; `more` are the workers that it has still to send away, or to add, after this one. -/
inductive Calling where
  | begun
  | retiring (more : Nat)
  | retired (more : Nat)
  | reclaiming (more : Nat)
  | reclaimed (more : Nat)
  | spawning (more : Nat)
  | spawned (more : Nat)
  | returned
  deriving DecidableEq, Repr

/-- From one of the two ends to the other. -/
def Between (a b x : Int) : Prop := min a b ≤ x ∧ x ≤ max a b

/-- `current` is how many workers there should be as the caller read it. -/
structure Caller where
  count : Nat
  current : Option Int
  calling : Calling
  deriving DecidableEq, Repr

namespace Calling

/-- By how much the call has still to change how many workers there should be. -/
def left : Calling → Int
  | begun => 0
  | retiring n => -n
  | retired n => -(n + 1)
  | reclaiming n => n
  | reclaimed n => n + 1
  | spawning n => n
  | spawned n => n + 1
  | returned => 0

/-- By how much the workers who are there are ahead of how many there should be. -/
def lead : Calling → Int
  | retired _ => -1
  | reclaimed _ => 1
  | spawned _ => 1
  | _ => 0

/-- A call between two steps of a request. -/
def ofResize : Resize → Calling
  | .asked _ => begun
  | .retiring n => retiring n
  | .reclaiming n => reclaiming n
  | .spawning n => spawning n
  | .done => returned

end Calling

/-- A new worker, of whom the number of those that there should be does not tell yet. -/
def Pool.recruit (p : Pool) : Pool := { p.spawn with target := p.target }

namespace Caller
open Pool

def ask (count : Nat) : Caller := ⟨count, none, .begun⟩

def go (c : Caller) (calling : Calling) : Caller := { c with calling := calling }

/-- What is to be done when so many workers should be there. -/
def read (c : Caller) (target : Int) : Caller :=
  ⟨c.count, some target,
    if target < c.count then .reclaiming (c.count - target).toNat else .retiring (target - c.count).toNat⟩

/-- One step of a call. -/
def step (c : Caller) (p : Pool) : Caller × Pool :=
  match c.calling with
  | .begun => (c.read p.target, p)
  | .retiring 0 => (c.go .returned, p)
  | .retiring (n + 1) => (c.go (.retired n), { p with tokens := p.tokens + 1 })
  | .retired n => (c.go (.retiring n), { p with target := p.target - 1 })
  | .reclaiming 0 => (c.go .returned, p)
  | .reclaiming (n + 1) =>
    if p.tokens = 0 then (c.go (.spawning (n + 1)), p)
    else (c.go (.reclaimed n), { p with tokens := p.tokens - 1 })
  | .reclaimed n => (c.go (.reclaiming n), { p with target := p.target + 1 })
  | .spawning 0 => (c.go .returned, p)
  | .spawning (n + 1) => (c.go (.spawned n), p.recruit)
  | .spawned n => (c.go (.spawning n), { p with target := p.target + 1 })
  | .returned => (c, p)

/-- By how much the call has changed how many workers there should be. -/
def done (c : Caller) : Int :=
  match c.current with
  | none => 0
  | some current => c.count - current - c.calling.left

variable {c : Caller} {p : Pool} {current : Int}

@[simp] theorem count_go (c : Caller) (calling : Calling) : (c.go calling).count = c.count := rfl

@[simp] theorem current_go (c : Caller) (calling : Calling) : (c.go calling).current = c.current := rfl

@[simp] theorem calling_go (c : Caller) (calling : Calling) : (c.go calling).calling = calling := rfl

@[simp] theorem count_read (c : Caller) (target : Int) : (c.read target).count = c.count := rfl

@[simp] theorem current_read (c : Caller) (target : Int) : (c.read target).current = some target := rfl

@[simp] theorem left_read (c : Caller) (target : Int) : (c.read target).calling.left = c.count - target := by
  simp only [read]
  split <;> simp only [Calling.left] <;> omega

@[simp] theorem lead_read (c : Caller) (target : Int) : (c.read target).calling.lead = 0 := by
  simp only [read]
  split <;> rfl

theorem calling_read_ne (c : Caller) (target : Int) : (c.read target).calling ≠ .begun := by
  simp only [read]
  split <;> simp

@[simp] theorem done_ask (count : Nat) : (ask count).done = 0 := rfl

@[simp] theorem done_read (c : Caller) (target : Int) : (c.read target).done = 0 := by
  simp [done, left_read]

theorem done_of_current (h : c.current = some current) : c.done = c.count - current - c.calling.left := by
  simp [done, h]

def steps : Nat → Caller → Pool → Caller × Pool
  | 0, c, p => (c, p)
  | n + 1, c, p => steps n (c.step p).1 (c.step p).2

theorem steps_add (k n : Nat) (c : Caller) (p : Pool) :
    c.steps (k + n) p = (c.steps k p).1.steps n (c.steps k p).2 := by
  induction k generalizing c p with
  | zero => rw [Nat.zero_add]; rfl
  | succ k ih => rw [Nat.succ_add, steps, steps, ih]

/-- The call has come as far as the request. -/
structure Follows (r : Resize) (c : Caller) : Prop where
  calling : c.calling = .ofResize r
  count : ∀ n, r = .asked n → c.count = n

theorem follows_step {r : Resize} (h : Follows r c) (p : Pool) :
    ∃ k, Follows (r.step p).1 (c.steps k p).1 ∧ (c.steps k p).2 = (r.step p).2 := by
  obtain ⟨count, current, calling⟩ := c
  obtain rfl : calling = .ofResize r := h.calling
  cases r with
  | asked n =>
    obtain rfl : count = n := h.count n rfl
    refine ⟨1, ?_⟩
    simp only [steps, step, Calling.ofResize, read, Resize.step]
    split <;> exact ⟨⟨rfl, by simp⟩, rfl⟩
  | retiring n =>
    cases n with
    | zero => exact ⟨1, ⟨rfl, by simp [Resize.step]⟩, rfl⟩
    | succ n => exact ⟨2, ⟨rfl, by simp [Resize.step]⟩, rfl⟩
  | reclaiming n =>
    cases n with
    | zero => exact ⟨1, ⟨rfl, by simp [Resize.step]⟩, rfl⟩
    | succ n =>
      by_cases ht : p.tokens = 0
      · refine ⟨1, ?_⟩
        simp only [steps, step, Calling.ofResize, Resize.step, ht, if_true]
        exact ⟨⟨rfl, by simp⟩, trivial⟩
      · refine ⟨2, ?_⟩
        simp only [steps, step, Calling.ofResize, Resize.step, ht, if_false]
        exact ⟨⟨rfl, by simp⟩, rfl⟩
  | spawning n =>
    cases n with
    | zero => exact ⟨1, ⟨rfl, by simp [Resize.step]⟩, rfl⟩
    | succ n => exact ⟨2, ⟨rfl, by simp [Resize.step]⟩, rfl⟩
  | done => exact ⟨0, ⟨rfl, by simp [Resize.step]⟩, rfl⟩

theorem follows_finish {n : Nat} {r : Resize} (h : Follows r c) (hn : r.size p ≤ n) :
    ∃ k, (c.steps k p).1.calling = .returned ∧ (c.steps k p).2 = r.finish n p := by
  induction n generalizing r c p with
  | zero =>
    have hr : r = .done := by
      cases r with
      | done => rfl
      | _ => simp [Resize.size] at hn
    subst hr
    exact ⟨0, h.calling, rfl⟩
  | succ n ih =>
    by_cases hr : r = .done
    · subst hr
      exact ⟨0, h.calling, (Shift.finish_done _ p).symm⟩
    · obtain ⟨j, hfollows, hpool⟩ := follows_step h p
      have hsize := Shift.size_step hr p
      obtain ⟨k, hreturned, hend⟩ := ih (p := (c.steps j p).2) hfollows (by
        rw [hpool]
        omega)
      refine ⟨j + k, ?_, ?_⟩
      · rw [steps_add]
        exact hreturned
      · rw [steps_add, hend, hpool]
        rfl

/-- A call that nobody interferes with is a request that nobody interferes with. -/
theorem setWorkers_of_alone {count : Nat} (h : p.resizable count = .ok ()) :
    ∃ k, ((ask count).steps k p).1.calling = .returned ∧ ((ask count).steps k p).2 = (p.setWorkers count).2 := by
  obtain ⟨k, hreturned, hend⟩ := follows_finish (c := ask count) (r := .asked count) (p := p)
    ⟨rfl, fun n hn => Resize.asked.inj hn⟩ le_rfl
  exact ⟨k, hreturned, by simpa [setWorkers, h] using hend⟩

theorem sound_step {journal : List Entry} (h : p.Sound journal) (c : Caller) : (c.step p).2.Sound journal := by
  have hsame {q : Pool} (hh : q.hands = p.hands) (hn : q.nextHand = p.nextHand) (hl : q.ledger = p.ledger) :
      q.Sound journal := ⟨crewed_of_hands h.crewed hh hn, hl ▸ h.run⟩
  obtain ⟨count, current, calling⟩ := c
  cases calling with
  | retiring n => cases n <;> exact hsame rfl rfl rfl
  | reclaiming n =>
    cases n with
    | zero => exact h
    | succ n =>
      simp only [step]
      split
      · exact h
      · exact hsame rfl rfl rfl
  | spawning n =>
    cases n with
    | zero => exact h
    | succ n => exact ⟨crewed_of_hands h.crewed.spawn rfl rfl, ledger_spawn p ▸ h.run⟩
  | _ => exact hsame rfl rfl rfl

theorem heeds_step (c : Caller) (p : Pool) :
    (c.step p).2.discarding = p.discarding ∧ (c.step p).2.accepting = p.accepting := by
  obtain ⟨count, current, calling⟩ := c
  cases calling with
  | reclaiming n =>
    cases n with
    | zero => exact ⟨rfl, rfl⟩
    | succ n =>
      simp only [step]
      split <;> exact ⟨rfl, rfl⟩
  | retiring n | spawning n => cases n <;> exact ⟨rfl, rfl⟩
  | _ => exact ⟨rfl, rfl⟩

/-- The workers who are there stay ahead of those who should be there by the lead of the call. -/
theorem staff_step (c : Caller) (p : Pool) :
    (c.step p).2.staff - (c.step p).2.target - (c.step p).1.calling.lead =
      p.staff - p.target - c.calling.lead := by
  obtain ⟨count, current, calling⟩ := c
  cases calling with
  | begun =>
    simp only [step, lead_read]
    rfl
  | retiring n =>
    cases n with
    | zero => rfl
    | succ n =>
      simp only [step, calling_go, Calling.lead, staff]
      omega
  | reclaiming n =>
    cases n with
    | zero => rfl
    | succ n =>
      by_cases ht : p.tokens = 0
      · simp only [step, ht, if_true, calling_go, Calling.lead]
      · simp only [step, ht, if_false, calling_go, Calling.lead, staff]
        omega
  | spawning n =>
    cases n with
    | zero => rfl
    | succ n =>
      have hhands : p.recruit.hands.length = p.hands.length + 1 := length_hands_spawn p
      have htokens : p.recruit.tokens = p.tokens := rfl
      have htarget : p.recruit.target = p.target := rfl
      simp only [step, calling_go, Calling.lead, staff, hhands, htokens, htarget]
      omega
  | retired n | reclaimed n | spawned n =>
    simp only [step, calling_go, Calling.lead, staff]
    omega
  | returned => rfl

@[simp] theorem count_step (c : Caller) (p : Pool) : (c.step p).1.count = c.count := by
  obtain ⟨count, current, calling⟩ := c
  cases calling with
  | reclaiming n =>
    cases n with
    | zero => rfl
    | succ n =>
      simp only [step]
      split <;> rfl
  | retiring n | spawning n => cases n <;> rfl
  | _ => rfl

theorem step_of_begun (h : c.calling = .begun) (p : Pool) : c.step p = (c.read p.target, p) := by
  obtain ⟨count, current, calling⟩ := c
  subst h
  rfl

/-- What a call does that goes by what it read. -/
structure GoesBy (c c' : Caller) (p p' : Pool) : Prop where
  begun : c'.calling ≠ .begun
  current : c'.current = c.current
  target : p'.target + c'.calling.left = p.target + c.calling.left
  left : Between 0 c.calling.left c'.calling.left

theorem goesBy_step (h : c.calling ≠ .begun) (p : Pool) : GoesBy c (c.step p).1 p (c.step p).2 := by
  obtain ⟨count, current, calling⟩ := c
  have hstays {next : Calling} (hnext : next ≠ .begun) (hleft : next.left = calling.left) :
      GoesBy ⟨count, current, calling⟩ ⟨count, current, next⟩ p p :=
    ⟨hnext, rfl, by rw [hleft], by simp only [hleft, Between]; omega⟩
  cases calling with
  | begun => exact absurd rfl h
  | returned => exact hstays (by simp) rfl
  | retiring n =>
    cases n with
    | zero => exact hstays (by simp) rfl
    | succ n => exact ⟨by simp [step], rfl, by simp [step, Calling.left], by simp [step, Calling.left, Between]⟩
  | reclaiming n =>
    cases n with
    | zero => exact hstays (by simp) rfl
    | succ n =>
      by_cases ht : p.tokens = 0
      · simp only [step, ht, if_true]
        exact hstays (by simp) rfl
      · simp only [step, ht, if_false]
        exact ⟨by simp, rfl, by simp [Calling.left], by simp [Calling.left, Between]⟩
  | spawning n =>
    cases n with
    | zero => exact hstays (by simp) rfl
    | succ n =>
      exact ⟨by simp [step], rfl, by simp [step, Calling.left, recruit], by simp [step, Calling.left, Between]⟩
  | retired n | reclaimed n | spawned n =>
    refine ⟨by simp [step], rfl, ?_, ?_⟩
    · simp only [step, calling_go, Calling.left]
      omega
    · simp only [step, calling_go, Calling.left, Between]
      omega

end Caller
end BatchJob.Worker
