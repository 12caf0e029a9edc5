import BatchJob.Proofs.Job.Counting

/-! What one step of the machine that feeds the worker pool can do: the ways in which it goes on and those in which
it ends, each with what the machine found. -/
namespace BatchJob.Job
open Worker Queue

variable {σ : Type}

namespace Pump

/-- Staging is over for this round. -/
def isStaged (p : Pump) : Prop := p.sourceDone ∨ chunk ≤ p.staged ∨ p.queue.isFull

def isDone (p : Pump) : Prop := p.sourceDone ∧ p.batch = [] ∧ p.queue.isEmpty ∧ p.inFlight = 0

/-- What `batch` and the number of the next unit are when the batch becomes a unit. -/
def cut (p : Pump) : Pump := { p with batch := [], units := p.units + 1 }

def unit (c : Settings) (request : Work.Request) (p : Pump) : WorkUnit :=
  .batch p.units p.batch c.batchDelimiter request

/-- The machine after a look into the queue, and the world then. -/
def polled (w : Surroundings σ) (p : Pump) (s : World σ) : Pump × World σ :=
  ({ p with queue := (p.queue.poll (w.disk s)).2 }, w.keep (p.queue.poll (w.disk s)).2.isOpen s)

def offered (w : Surroundings σ) (p : Pump) (x : String) (s : World σ) : Pump × World σ :=
  ({ p with queue := (p.queue.offer x (w.disk s)).2 }, w.keep (p.queue.offer x (w.disk s)).2.isOpen s)

end Pump

/-- A batch becomes a unit when it is full, or when it is the last one and nothing is left in the queue, as the machine
finds by a look. -/
inductive Ripe (w : Surroundings σ) (c : Settings) (p : Pump) (s : World σ) : Pump → World σ → Prop
  | full (hfull : c.batchSize ≤ p.batch.length) : Ripe w c p s p s
  | last (hpoll : (p.queue.poll (w.disk s)).1 = .ok none) (hdone : p.sourceDone = true) (hbatch : p.batch ≠ []) :
    Ripe w c p s (p.polled w s).1 (p.polled w s).2

/-- The steps that bring the job on: something is taken from the source, moved, submitted, let in or received. -/
inductive Advances (w : Surroundings σ) (c : Settings) (request : Work.Request) (p : Pump) (s : World σ) :
    Pump → World σ → Prop
  | receive {done : Completed} {s' : World σ} (hp : p.point = .collecting ∨ p.point = .waiting)
    (hr : s.receive = (some done, s')) :
    Advances w c request p s { p with inFlight := p.inFlight - 1, point := .collecting } (s'.onState (tally done))
  | exhaust {s' : World σ} (hp : p.point = .staging) (hmore : ¬ p.isStaged) (hn : w.next s = (.ok none, s')) :
    Advances w c request p s { p with sourceDone := true } s'
  | skip {x : String} {s' : World σ} (hp : p.point = .staging) (hmore : ¬ p.isStaged)
    (hn : w.next s = (.ok (some x), s')) (hx : Text.blankText x = true) : Advances w c request p s p s'
  | stage {x : String} {s' : World σ} (hp : p.point = .staging) (hmore : ¬ p.isStaged)
    (hn : w.next s = (.ok (some x), s')) (hx : Text.blankText x = false)
    (ho : (p.queue.offer x (w.disk s')).1 = .ok true) :
    Advances w c request p s { (p.offered w x s').1 with staged := p.staged + 1 } (p.offered w x s').2
  | take {limit : Nat} {x : String} (hp : p.point = .filling limit)
    (hpoll : (p.queue.poll (w.disk s)).1 = .ok (some x)) :
    Advances w c request p s { (p.polled w s).1 with batch := p.batch ++ [x] } (p.polled w s).2
  | submit {limit serial : Nat} {p₁ : Pump} {s₁ s' : World σ} (hp : p.point = .filling limit)
    (hripe : Ripe w c p s p₁ s₁) (hs : s₁.submit (p₁.unit c request) = (.ok serial, s'))
    (hroom : s'.isBlocked serial = false) :
    Advances w c request p s
      { p₁.cut with point := .filling limit, inFlight := p₁.inFlight + 1, submitted := p₁.submitted + 1 } s'
  | block {limit serial : Nat} {p₁ : Pump} {s₁ s' : World σ} (hp : p.point = .filling limit)
    (hripe : Ripe w c p s p₁ s₁) (hs : s₁.submit (p₁.unit c request) = (.ok serial, s'))
    (hroom : s'.isBlocked serial = true) :
    Advances w c request p s (p₁.cut.moveTo (.sending limit serial)) s'
  | enter {limit serial : Nat} (hp : p.point = .sending limit serial) (hr : s.isRefused serial = false)
    (hb : s.isBlocked serial = false) :
    Advances w c request p s
      { p with point := .filling limit, inFlight := p.inFlight + 1, submitted := p.submitted + 1 } s

/-- The steps that only lead to another point of the round, or wait. -/
inductive Idles (w : Surroundings σ) (c : Settings) (p : Pump) (s : World σ) : Pump → World σ → Prop
  | begin {s' : World σ} (hp : p.point = .collecting) (hr : s.receive = (none, s'))
    (hgo : s'.state.stopRequested = false) :
    Idles w c p s { p with point := .staging, staged := 0, submitted := 0 } s'
  | staged (hp : p.point = .staging) (hover : p.isStaged) :
    Idles w c p s (p.moveTo (.filling (Pump.limit c s))) s
  | limited {limit : Nat} (hp : p.point = .filling limit) (hl : limit ≤ p.inFlight) :
    Idles w c p s (p.moveTo .concluding) s
  | drained {limit : Nat} (hp : p.point = .filling limit) (hpoll : (p.queue.poll (w.disk s)).1 = .ok none)
    (hlast : ¬(p.sourceDone ∧ p.batch ≠ [])) :
    Idles w c p s ((p.polled w s).1.moveTo .concluding) (p.polled w s).2
  | hold {limit serial : Nat} (hp : p.point = .sending limit serial) (hr : s.isRefused serial = false)
    (hb : s.isBlocked serial = true) : Idles w c p s p ((s.giveUp? serial).getD s)
  | rest (hp : p.point = .concluding) (hover : ¬ p.isDone) (hidle : p.staged = 0 ∧ p.submitted = 0 ∧ 0 < p.inFlight) :
    Idles w c p s (p.moveTo .waiting) s
  | again (hp : p.point = .concluding) (hover : ¬ p.isDone)
    (hidle : ¬(p.staged = 0 ∧ p.submitted = 0 ∧ 0 < p.inFlight)) : Idles w c p s (p.moveTo .collecting) s
  | wake {s' : World σ} (hp : p.point = .waiting) (hr : s.receive = (none, s')) :
    Idles w c p s (p.moveTo .collecting) s'

/-- What a submission that was turned away comes to. -/
def turnedAway (stopRequested : Bool) (e : PoolError) : Except JobError Ending :=
  if stopRequested then .ok .stopped else .error (.pool e)

/-- The ways in which a step is the last one. -/
inductive Halts (w : Surroundings σ) (c : Settings) (request : Work.Request) (p : Pump) (s : World σ) :
    Except JobError Ending → Pump → Prop
  | failed {done : Completed} {e : JobError} {s' : World σ} (hp : p.point = .collecting ∨ p.point = .waiting)
    (hr : s.receive = (some done, s')) (he : fatalOutcome? c.failOnError done = some e) :
    Halts w c request p s (.error e) { p with inFlight := p.inFlight - 1, point := .collecting }
  | stopped (hp : p.point = .collecting) : Halts w c request p s (.ok .stopped) p
  | source {text : String} {s' : World σ} (hp : p.point = .staging) (hmore : ¬ p.isStaged)
    (hn : w.next s = (.error text, s')) : Halts w c request p s (.error (.source text)) p
  | offer {x : String} {s' : World σ} {e : QueueError} (hp : p.point = .staging) (hmore : ¬ p.isStaged)
    (hn : w.next s = (.ok (some x), s')) (hx : Text.blankText x = false)
    (ho : (p.queue.offer x (w.disk s')).1 = .error e) :
    Halts w c request p s (.error (.ofQueue e)) (p.offered w x s').1
  | overfull {x : String} {s' : World σ} (hp : p.point = .staging) (hmore : ¬ p.isStaged)
    (hn : w.next s = (.ok (some x), s')) (ho : (p.queue.offer x (w.disk s')).1 = .ok false) :
    Halts w c request p s (.error (.internal "staging queue refused an identifier")) (p.offered w x s').1
  | poll {limit : Nat} {e : QueueError} (hp : p.point = .filling limit)
    (hpoll : (p.queue.poll (w.disk s)).1 = .error e) :
    Halts w c request p s (.error (.ofQueue e)) (p.polled w s).1
  | unadmitted {p₁ : Pump} {s₁ s' : World σ} {limit : Nat} {e : PoolError} (hp : p.point = .filling limit)
    (hripe : Ripe w c p s p₁ s₁) (hs : s₁.submit (p₁.unit c request) = (.error e, s')) :
    Halts w c request p s (turnedAway s'.state.stopRequested e) p₁.cut
  | refused {limit serial : Nat} (hp : p.point = .sending limit serial) (hr : s.isRefused serial = true) :
    Halts w c request p s (turnedAway s.state.stopRequested .shutDown) p
  | completed (hp : p.point = .concluding) (hdone : p.isDone) : Halts w c request p s (.ok .completed) p
  | closed {s' : World σ} (hp : p.point = .waiting) (hr : s.receive = (none, s')) (hc : s'.canComplete = false) :
    Halts w c request p s (.error (.internal "worker pool completion channel closed")) p

/-- What a step does, whether it is the last one or not. -/
def Turns (w : Surroundings σ) (c : Settings) (request : Work.Request) (p : Pump) (s : World σ) : Step σ → Prop
  | (none, p', s') => Advances w c request p s p' s' ∨ Idles w c p s p' s'
  | (some result, p', _) => Halts w c request p s result p'

variable {w : Surroundings σ} {c : Settings} {request : Work.Request} {p : Pump} {s s' : World σ}

theorem turns_record {done : Completed} (hp : p.point = .collecting ∨ p.point = .waiting)
    (hr : s.receive = (some done, s')) : Turns w c request p s (p.record c done s') := by
  rw [Pump.record_eq]
  cases he : fatalOutcome? c.failOnError done with
  | none => exact Or.inl (.receive hp hr)
  | some e => exact .failed hp hr he

theorem turns_collect (hp : p.point = .collecting) : Turns w c request p s (p.collect c s) := by
  rw [Pump.collect]
  cases hr : s.receive with
  | mk done s' =>
    cases done with
    | some done => exact turns_record (Or.inl hp) hr
    | none =>
      simp only
      split
      · exact .stopped hp
      · rename_i hgo
        exact Or.inr (.begin hp hr (by simpa using hgo))

theorem turns_stage (hp : p.point = .staging) : Turns w c request p s (p.stage w c s) := by
  rw [Pump.stage]
  split
  · rename_i hover
    exact Or.inr (.staged hp hover)
  · rename_i hmore
    cases hn : w.next s with
    | mk answer s' =>
      rcases answer with e | _ | x
      · exact .source hp hmore hn
      · exact Or.inl (.exhaust hp hmore hn)
      · simp only
        split
        · rename_i hx
          exact Or.inl (.skip hp hmore hn hx)
        · rename_i hx
          simp only [Pump.offer]
          split
          · rename_i ho
            exact .offer hp hmore hn (by simpa using hx) ho
          · rename_i ho
            exact .overfull hp hmore hn ho
          · rename_i ho
            exact Or.inl (.stage hp hmore hn (by simpa using hx) ho)

theorem turns_submit {limit : Nat} {p₁ : Pump} {s₁ : World σ} (hp : p.point = .filling limit)
    (hripe : Ripe w c p s p₁ s₁) : Turns w c request p s (p₁.submit c request limit s₁) := by
  have hunit : p₁.unit c request = .batch p₁.units p₁.batch c.batchDelimiter request := rfl
  simp only [Pump.submit]
  rw [← hunit]
  cases hs : s₁.submit (p₁.unit c request) with
  | mk answer s' =>
    cases answer with
    | error e =>
      have hhalts : Halts w c request p s (turnedAway s'.state.stopRequested e) p₁.cut := .unadmitted hp hripe hs
      rw [turnedAway] at hhalts
      simp only [Pump.refused]
      split
      · rename_i hstop
        rwa [if_pos hstop] at hhalts
      · rename_i hgo
        rwa [if_neg hgo] at hhalts
    | ok serial =>
      simp only
      split
      · rename_i hroom
        exact Or.inl (.block hp hripe hs hroom)
      · rename_i hroom
        exact Or.inl (.submit hp hripe hs (by simpa using hroom))

theorem turns_fill {limit : Nat} (hp : p.point = .filling limit) :
    Turns w c request p s (p.fill w c request limit s) := by
  rw [Pump.fill]
  split
  · rename_i hl
    exact Or.inr (.limited hp hl)
  · split
    · rename_i hfull
      exact turns_submit hp (.full hfull)
    · simp only
      split
      · rename_i hpoll
        exact .poll hp hpoll
      · rename_i hpoll
        exact Or.inl (.take hp hpoll)
      · rename_i hpoll
        split
        · rename_i hlast
          exact turns_submit hp (.last hpoll hlast.1 hlast.2)
        · rename_i hlast
          exact Or.inr (.drained hp hpoll hlast)

theorem turns_send {limit serial : Nat} (hp : p.point = .sending limit serial) :
    Turns w c request p s (p.send limit serial s) := by
  rw [Pump.send]
  split
  · rename_i hr
    have hhalts : Halts w c request p s (turnedAway s.state.stopRequested .shutDown) p := .refused hp hr
    rw [turnedAway] at hhalts
    rw [Pump.refused]
    split
    · rename_i hstop
      rwa [if_pos hstop] at hhalts
    · rename_i hgo
      rwa [if_neg hgo] at hhalts
  · rename_i hr
    split
    · rename_i hb
      exact Or.inr (.hold hp (by simpa using hr) hb)
    · rename_i hb
      exact Or.inl (.enter hp (by simpa using hr) (by simpa using hb))

theorem turns_conclude (hp : p.point = .concluding) : Turns w c request p s (p.conclude s) := by
  rw [Pump.conclude]
  split
  · rename_i hdone
    exact .completed hp hdone
  · rename_i hover
    split
    · rename_i hidle
      exact Or.inr (.rest hp hover hidle)
    · rename_i hidle
      exact Or.inr (.again hp hover hidle)

theorem turns_wait (hp : p.point = .waiting) : Turns w c request p s (p.wait c s) := by
  rw [Pump.wait]
  cases hr : s.receive with
  | mk done s' =>
    cases done with
    | some done => exact turns_record (Or.inr hp) hr
    | none =>
      simp only
      split
      · exact Or.inr (.wake hp hr)
      · rename_i hc
        exact .closed hp hr (by simpa using hc)

theorem turns_step (w : Surroundings σ) (c : Settings) (request : Work.Request) (p : Pump) (s : World σ) :
    Turns w c request p s (p.step w c request s) := by
  rw [Pump.step]
  split
  · rename_i hp
    exact turns_collect hp
  · rename_i hp
    exact turns_stage hp
  · rename_i hp
    exact turns_fill hp
  · rename_i hp
    exact turns_send hp
  · rename_i hp
    exact turns_conclude hp
  · rename_i hp
    exact turns_wait hp

/-- Only with units in flight a step leads to a wait for one. -/
theorem inFlight_pos_of_waiting (h : Advances w c request p s p' s' ∨ Idles w c p s p' s') (hp : p'.point = .waiting) :
    0 < p'.inFlight := by
  rcases h with ha | hi
  · cases ha with
    | exhaust hp' _ _ | skip hp' _ _ _ =>
      rw [hp'] at hp
      cases hp
    | stage hp' _ _ _ _ | take hp' _ =>
      simp [Pump.offered, Pump.polled, hp'] at hp
    | receive _ _ | submit _ _ _ _ | block _ _ _ _ | enter _ _ _ => cases hp
  · cases hi with
    | hold hp' _ _ =>
      rw [hp'] at hp
      cases hp
    | rest _ _ hidle => exact hidle.2.2
    | begin _ _ _ | staged _ _ | limited _ _ | drained _ _ _ | again _ _ _ | wake _ _ => cases hp

end BatchJob.Job
