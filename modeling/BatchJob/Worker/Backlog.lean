import BatchJob.Worker.Pool

/-! Into the backlog of a worker pool and out of it again without being executed. -/
namespace BatchJob.Worker.Pool

def hasRoom (p : Pool) : Bool := p.backlog.length < p.depth

def place (p : Pool) (t : Task) : Pool :=
  if p.hasRoom then { p with backlog := p.backlog ++ [t] } else { p with blocked := p.blocked ++ [t] }

/-- A new submission has the next serial. -/
def enter (p : Pool) (unit : WorkUnit) : Pool :=
  ({ p.count .submit with submissions := p.submissions ++ [⟨unit, .pending⟩] } : Pool).place
    ⟨p.submissions.length, unit⟩

/-- What is asked before a submission is let in. -/
def admits (p : Pool) : Bool := !p.shut && !p.discarding && p.accepting

/-- The serial of the submission, which may still have to wait for room. -/
def submit (p : Pool) (unit : WorkUnit) : Except PoolError Nat × Pool :=
  if p.admits then (.ok p.submissions.length, p.enter unit) else (.error .shutDown, p)

def isBlocked (p : Pool) (serial : Nat) : Bool := p.blocked.any (·.serial = serial)

def unblock (p : Pool) (serial : Nat) : Pool :=
  { p with blocked := p.blocked.filter (·.serial ≠ serial) }

def admit? (p : Pool) (serial : Nat) : Option Pool :=
  match p.blocked.find? (·.serial = serial) with
  | none => none
  | some t => if p.hasRoom then some { p.unblock serial with backlog := p.backlog ++ [t] } else none

/-- One who waits for room finds the pool shut and takes the submission back. -/
def giveUp? (p : Pool) (serial : Nat) : Option Pool :=
  if p.isBlocked serial ∧ (p.shut ∨ p.discarding) then
    some (((p.unblock serial).count .takeBack).setReply serial .refused)
  else none

/-- From now on no unit starts and none is let in. -/
def discard (p : Pool) : Pool := { p with discarding := true }

/-- Takes the oldest task out of the backlog for good. -/
def drop? (p : Pool) : Option Pool :=
  match p.backlog with
  | [] => none
  | t :: rest => some ((({ p with backlog := rest } : Pool).count .discard).setReply t.serial .dropped)

def drain : Nat → Pool → Pool
  | 0, p => p
  | n + 1, p =>
    match p.drop? with
    | none => p
    | some q => drain n q

/-- The gate opens and the pool puts nothing more into the backlog; a second time changes nothing. -/
def close (p : Pool) : Pool :=
  if p.shut then p else { p.resume with shut := true, accepting := false }

def closeNow (p : Pool) : Pool := (p.discard.drain p.backlog.length).close

def isExhausted (p : Pool) : Bool := p.backlog.isEmpty && !p.accepting && p.blocked.isEmpty

theorem backlog_drop? {p q : Pool} (h : p.drop? = some q) : q.backlog = p.backlog.tail := by
  unfold drop? at h
  split at h
  · simp at h
  · rename_i t rest hb
    simp only [Option.some.injEq] at h
    simp [← h, hb, setReply, count]

theorem drain_of_backlog_eq_nil {p : Pool} (h : p.backlog = []) (n : Nat) : drain n p = p := by
  cases n <;> simp [drain, drop?, h]

theorem backlog_drain (n : Nat) (p : Pool) : (drain n p).backlog = p.backlog.drop n := by
  induction n generalizing p with
  | zero => rfl
  | succ n ih =>
    cases hb : p.backlog with
    | nil => simp [drain, drop?, hb]
    | cons t rest =>
      simp only [drain, drop?, hb]
      rw [ih]
      simp [setReply, count]

end BatchJob.Worker.Pool
