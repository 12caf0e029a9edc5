import BatchJob.Work.Attempts

/-! How the attempts at a unit end. They are made once more with a record of every answer of the pool and of
every outcome of an attempt; the record tells how many attempts there were and which of them decided. -/
namespace BatchJob.Work
open Endpoint

/-- What was answered to the one who asked for endpoints, and the outcomes on those that were granted, oldest
first. -/
structure Record where
  answers : List (Except Refusal Endpoint)
  outcomes : List Outcome

namespace Record

def blank : Record := ⟨[], []⟩

def count (kind : FailureKind) (outcomes : List Outcome) : Nat :=
  outcomes.countP (·.status = .failed kind)

theorem count_snoc (kind : FailureKind) (outcomes : List Outcome) (o : Outcome) :
    count kind (outcomes ++ [o]) = count kind outcomes + if o.status = .failed kind then 1 else 0 := by
  simp [count, List.countP_append, List.countP_singleton]

end Record

namespace Attempts
variable {σ : Type}

/-- The same attempts, with a record of them beside the state. -/
def recorded (a : Attempts σ) : Attempts (σ × Record) where
  acquire s :=
    let (answer, t) := a.acquire s.1
    (answer, t, { s.2 with answers := s.2.answers ++ [answer] })
  execute unit e s :=
    let (outcome, t) := a.execute unit e s.1
    (outcome, t, { s.2 with outcomes := s.2.outcomes ++ [outcome] })
  now s := a.now s.1
  sleep d s := (a.sleep d s.1, s.2)
  hold e s := (a.hold e s.1, s.2)
  release e s := (a.release e s.1, s.2)
  succeed e s := (a.succeed e s.1, s.2)
  fail e leased s := (a.fail e leased s.1, s.2)

theorem acquire_recorded {a : Attempts σ} {s t : σ} {answer : Except Refusal Endpoint}
    (h : a.acquire s = (answer, t)) (r : Record) :
    a.recorded.acquire (s, r) = (answer, t, { r with answers := r.answers ++ [answer] }) := by
  simp [recorded, h]

theorem attempt_recorded {a : Attempts σ} {unit : WorkUnit} {e : Endpoint} {s t : σ} {o : Outcome}
    {leased : Duration} (h : a.attempt unit e s = (o, leased, t)) (r : Record) :
    a.recorded.attempt unit e (s, r) = (o, leased, t, { r with outcomes := r.outcomes ++ [o] }) := by
  simp only [attempt, Prod.mk.injEq] at h
  obtain ⟨rfl, rfl, rfl⟩ := h
  rfl

/-- So many failed endpoints and retries after what is recorded, and every outcome so far allowed another
attempt. -/
structure Ongoing (p : RetryPolicy) (failures retries : Nat) (r : Record) : Prop where
  failures_le : failures ≤ p.endpointLimit
  retries_le : retries ≤ p.unitLimit
  endpoints : Record.count .endpoint r.outcomes = failures
  units : Record.count .unit r.outcomes = retries
  length : r.outcomes.length = failures + retries
  granted : ∀ refusal, .error refusal ∉ r.answers
  passed : ∀ o ∈ r.outcomes,
    o.status = .failed .endpoint ∨ (o.status = .failed .unit ∧ p.retryable o.detail = true)

variable {p : RetryPolicy} {failures retries : Nat} {r : Record} {o : Outcome} {e : Endpoint}

theorem ongoing_blank (p : RetryPolicy) : Ongoing p 0 0 .blank :=
  ⟨Nat.zero_le _, Nat.zero_le _, rfl, rfl, rfl, by simp [Record.blank], by simp [Record.blank]⟩

def after (r : Record) (e : Endpoint) (o : Outcome) : Record :=
  ⟨r.answers ++ [.ok e], r.outcomes ++ [o]⟩

theorem Ongoing.granted_after (h : Ongoing p failures retries r) (refusal : Refusal) :
    .error refusal ∉ (after r e o).answers := by
  simp [after, h.granted refusal]

theorem Ongoing.endpointFailed (h : Ongoing p failures retries r) (ho : o.status = .failed .endpoint)
    (hlt : failures < p.endpointLimit) : Ongoing p (failures + 1) retries (after r e o) where
  failures_le := hlt
  retries_le := h.retries_le
  endpoints := by simp [after, Record.count_snoc, h.endpoints, ho]
  units := by simp [after, Record.count_snoc, h.units, ho]
  length := by simp only [after, List.length_append, List.length_singleton, h.length]; omega
  granted := h.granted_after
  passed := by
    intro x hx
    rcases List.mem_append.mp hx with hx | hx
    · exact h.passed x hx
    · rw [List.mem_singleton.mp hx]
      exact Or.inl ho

theorem Ongoing.unitFailed (h : Ongoing p failures retries r) (ho : o.status = .failed .unit)
    (hlt : retries < p.unitLimit) (hr : p.retryable o.detail = true) :
    Ongoing p failures (retries + 1) (after r e o) where
  failures_le := h.failures_le
  retries_le := hlt
  endpoints := by simp [after, Record.count_snoc, h.endpoints, ho]
  units := by simp [after, Record.count_snoc, h.units, ho]
  length := by simp only [after, List.length_append, List.length_singleton, h.length]; omega
  granted := h.granted_after
  passed := by
    intro x hx
    rcases List.mem_append.mp hx with hx | hx
    · exact h.passed x hx
    · rw [List.mem_singleton.mp hx]
      exact Or.inr ⟨ho, hr⟩

/-- Some message that is not empty occurs in the detail. -/
def Retryable (p : RetryPolicy) (detail : Option String) : Prop :=
  ∃ d m, detail = some d ∧ m ∈ p.messages ∧ m ≠ "" ∧ m.toList <:+: d.toList

theorem retryable_iff (p : RetryPolicy) (detail : Option String) :
    p.retryable detail = true ↔ Retryable p detail := by
  cases detail with
  | none => simp [RetryPolicy.retryable, Retryable]
  | some d => simp [RetryPolicy.retryable, Retryable]

/-- What the outcome of all attempts has to do with the record of them. -/
structure Classified (p : RetryPolicy) (r : Record) (result : Outcome) : Prop where
  length_le : r.outcomes.length ≤ 1 + p.endpointLimit + p.unitLimit
  endpoints_le : Record.count .endpoint r.outcomes ≤ p.endpointLimit + 1
  units_le : Record.count .unit r.outcomes ≤ p.unitLimit + 1
  succeeded_iff : result.status = .succeeded ↔
    ∃ last, r.outcomes.getLast? = some last ∧ last.status = .succeeded
  -- The failures are counted from the first attempt on, whatever else came between them.
  endpoint_iff : result.status = .failed .endpoint ↔
    (∃ last, r.outcomes.getLast? = some last ∧ last.status = .failed .endpoint) ∧
      Record.count .endpoint r.outcomes = p.endpointLimit + 1
  unit_iff : result.status = .failed .unit ↔
    ∃ earlier last, r.outcomes = earlier ++ [last] ∧ last.status = .failed .unit ∧
      (Record.count .unit earlier = p.unitLimit ∨ ¬ Retryable p last.detail)
  exhausted_iff : ∀ waits, result.status = .failed (.poolExhausted waits) ↔
    .error (.exhausted waits) ∈ r.answers ∨ (.error .closed ∈ r.answers ∧ waits = 0) ∨
      ∃ last, r.outcomes.getLast? = some last ∧ last.status = .failed (.poolExhausted waits)
  last_of_granted : (∀ refusal, .error refusal ∉ r.answers) →
    ∃ last, r.outcomes.getLast? = some last ∧ result.status = last.status ∧ result.detail = last.detail

theorem Ongoing.refused (h : Ongoing p failures retries r) (refusal : Refusal) (elapsed : Duration) :
    Classified p { r with answers := r.answers ++ [.error refusal] }
      (.failure (.poolExhausted refusal.waits) elapsed refusal.message) := by
  -- Whatever is recorded so far allowed another attempt.
  have hlast : ∀ last, r.outcomes.getLast? = some last →
      last.status = .failed .endpoint ∨ (last.status = .failed .unit ∧ p.retryable last.detail = true) :=
    fun last hl => h.passed last (List.mem_of_getLast? hl)
  constructor
  case length_le =>
    have := h.failures_le
    have := h.retries_le
    simp only [h.length]
    omega
  case endpoints_le => simpa only [h.endpoints] using Nat.le_succ_of_le h.failures_le
  case units_le => simpa only [h.units] using Nat.le_succ_of_le h.retries_le
  case succeeded_iff =>
    constructor
    · intro hs
      cases hs
    · rintro ⟨last, hl, hs⟩
      rcases hlast last hl with hk | ⟨hk, -⟩ <;> rw [hs] at hk <;> cases hk
  case endpoint_iff =>
    constructor
    · intro hs
      cases hs
    · rintro ⟨-, hcount⟩
      have := h.failures_le
      simp only [h.endpoints] at hcount
      omega
  case unit_iff =>
    constructor
    · intro hs
      cases hs
    · rintro ⟨earlier, last, hr, hs, hspent⟩
      simp only at hr
      have hunits := h.units
      rw [hr, Record.count_snoc, if_pos hs] at hunits
      rcases hlast last (by simp [hr]) with hk | ⟨-, hretry⟩
      · rw [hs] at hk
        cases hk
      · rcases hspent with hspent | hno
        · have := h.retries_le
          omega
        · exact absurd ((retryable_iff p last.detail).mp hretry) hno
  case exhausted_iff =>
    intro waits
    have hnone : ¬ ∃ last, r.outcomes.getLast? = some last ∧
        last.status = .failed (.poolExhausted waits) := by
      rintro ⟨last, hl, hs⟩
      rcases hlast last hl with hk | ⟨hk, -⟩ <;> rw [hs] at hk <;> cases hk
    cases refusal with
    | exhausted n => simp [Outcome.failure, Refusal.waits, h.granted, hnone, eq_comm]
    | closed => simp [Outcome.failure, Refusal.waits, h.granted, hnone, eq_comm]
  case last_of_granted =>
    intro hg
    exact absurd (List.mem_append_right _ (List.mem_singleton_self _)) (hg refusal)

/-- An outcome after which nothing more is tried. -/
inductive Final (p : RetryPolicy) (failures retries : Nat) (o : Outcome) : Prop
  | succeeded (h : o.status = .succeeded)
  | endpoint (h : o.status = .failed .endpoint) (hl : ¬ failures < p.endpointLimit)
  | unit (h : o.status = .failed .unit) (hl : ¬(retries < p.unitLimit ∧ p.retryable o.detail = true))
  | exhausted (waits : Nat) (h : o.status = .failed (.poolExhausted waits))

theorem Ongoing.ended (h : Ongoing p failures retries r) (hf : Final p failures retries o)
    (elapsed : Duration) : Classified p (after r e o) (o.withElapsed elapsed) := by
  have hfailures := h.failures_le
  have hretries := h.retries_le
  have hlast : (after r e o).outcomes.getLast? = some o := by simp [after]
  constructor
  case length_le =>
    simp only [after, List.length_append, List.length_singleton, h.length]
    omega
  case endpoints_le =>
    simp only [after, Record.count_snoc, h.endpoints]
    split <;> omega
  case units_le =>
    simp only [after, Record.count_snoc, h.units]
    split <;> omega
  case succeeded_iff => simp [hlast]
  case endpoint_iff =>
    simp only [Outcome.status_withElapsed, hlast, Option.some.injEq, exists_eq_left']
    constructor
    · intro hs
      refine ⟨hs, ?_⟩
      cases hf with
      | endpoint _ hl =>
        simp only [after, Record.count_snoc, h.endpoints, hs, if_true]
        omega
      | succeeded hk => rw [hs] at hk; cases hk
      | unit hk => rw [hs] at hk; cases hk
      | exhausted _ hk => rw [hs] at hk; cases hk
    · exact And.left
  case unit_iff =>
    rw [Outcome.status_withElapsed]
    constructor
    · intro hs
      refine ⟨r.outcomes, o, rfl, hs, ?_⟩
      cases hf with
      | unit _ hl =>
        rw [h.units, ← retryable_iff]
        by_cases hr : p.retryable o.detail = true
        · left
          have : ¬ retries < p.unitLimit := fun hlt => hl ⟨hlt, hr⟩
          omega
        · exact Or.inr hr
      | succeeded hk => rw [hs] at hk; cases hk
      | endpoint hk => rw [hs] at hk; cases hk
      | exhausted _ hk => rw [hs] at hk; cases hk
    · rintro ⟨earlier, last, hr, hs, -⟩
      have ho : o = last := (List.append_inj' hr rfl).2 |> List.cons.inj |>.1
      rw [ho]
      exact hs
  case exhausted_iff =>
    intro waits
    simp [h.granted_after, hlast]
  case last_of_granted => exact fun _ => ⟨o, hlast, rfl, rfl⟩

theorem attempts_recorded (a : Attempts σ) (unit : WorkUnit) (started : Duration) (s : σ)
    (h : Ongoing p failures retries r) :
    ∃ r', a.recorded.runFrom p unit started failures retries (s, r) =
        ((a.runFrom p unit started failures retries s).1,
          (a.runFrom p unit started failures retries s).2, r') ∧
      Classified p r' (a.runFrom p unit started failures retries s).1 := by
  induction failures, retries, s using runFrom.induct a p unit started generalizing r with
  | case1 failures retries s refusal t hget =>
    rw [runFrom, runFrom, acquire_recorded hget, hget]
    exact ⟨_, rfl, h.refused refusal _⟩
  | case2 failures retries s e t hget o leased t' hatt hs =>
    rw [runFrom, runFrom, acquire_recorded hget, hget]
    simp only [attempt_recorded hatt, hatt, hs]
    exact ⟨_, rfl, h.ended (.succeeded hs) _⟩
  | case3 failures retries s e t hget o leased t' hatt hs t'' hlt =>
    rename_i ih
    rw [runFrom, runFrom, acquire_recorded hget, hget]
    simp only [attempt_recorded hatt, hatt, hs, if_pos hlt]
    exact ih (h.endpointFailed hs hlt)
  | case4 failures retries s e t hget o leased t' hatt hs hlt =>
    rw [runFrom, runFrom, acquire_recorded hget, hget]
    simp only [attempt_recorded hatt, hatt, hs, if_neg hlt]
    exact ⟨_, rfl, h.ended (.endpoint hs hlt) _⟩
  | case5 failures retries s e t hget o leased t' hatt hs t'' hlt =>
    rename_i ih
    rw [runFrom, runFrom, acquire_recorded hget, hget]
    simp only [attempt_recorded hatt, hatt, hs, if_pos hlt]
    exact ih (h.unitFailed hs hlt.1 hlt.2)
  | case6 failures retries s e t hget o leased t' hatt hs hlt =>
    rw [runFrom, runFrom, acquire_recorded hget, hget]
    simp only [attempt_recorded hatt, hatt, hs, if_neg hlt]
    exact ⟨_, rfl, h.ended (.unit hs hlt) _⟩
  | case7 failures retries s e t hget o leased t' hatt waits hs =>
    rw [runFrom, runFrom, acquire_recorded hget, hget]
    simp only [attempt_recorded hatt, hatt, hs]
    exact ⟨_, rfl, h.ended (.exhausted waits hs) _⟩

/-- Whatever the pool answers and however the attempts go, there are not more of them than the limits
allow, and the outcome is that of the one which decided. -/
theorem classified_run (a : Attempts σ) (p : RetryPolicy) (unit : WorkUnit) (s : σ) :
    ∃ r, a.recorded.run p unit (s, .blank) = ((a.run p unit s).1, (a.run p unit s).2, r) ∧
      Classified p r (a.run p unit s).1 :=
  attempts_recorded a unit (a.now s) s (ongoing_blank p)

def scripted (e : Endpoint) : Attempts (List Outcome) where
  acquire s := (.ok e, s)
  execute _ _ s := (s.headD (.success .zero), s.tail)
  now _ := .zero
  sleep _ s := s
  hold _ s := s
  release _ s := s
  succeed _ s := s
  fail _ _ s := s

/-- A failure of the unit between two failed endpoints does not make the first be forgotten. -/
example : ((scripted ⟨0, "a", none⟩).run ⟨1, 1, .zero, ["busy"]⟩ (.single 0 "x" .plain)
    [.failure .endpoint .zero "", .failure .unit .zero "too busy", .failure .endpoint .zero ""]).1.status =
      .failed .endpoint := by cbv

end Attempts
end BatchJob.Work
