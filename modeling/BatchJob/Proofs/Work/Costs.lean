import BatchJob.Proofs.Endpoint.Leases
import BatchJob.Proofs.Endpoint.Naps
import BatchJob.Work.Attempts

/-! What it costs to execute a unit: time and leases. The attempts are made once more with a record of all that is done
in them; the record accounts for the time from the first look at the clock to the last one, and for the lease that is
held while the executor is at work. -/
namespace BatchJob

def Duration.total (ds : List Duration) : Duration := ds.foldr (· + ·) .zero

@[simp] theorem Duration.nanos_total_nil : (Duration.total []).nanos = 0 := rfl

@[simp] theorem Duration.nanos_total_cons (d : Duration) (ds : List Duration) :
    (Duration.total (d :: ds)).nanos = d.nanos + (Duration.total ds).nanos := rfl

@[simp] theorem Duration.nanos_total_append (ds es : List Duration) :
    (Duration.total (ds ++ es)).nanos = (Duration.total ds).nanos + (Duration.total es).nanos := by
  induction ds with
  | nil => simp
  | cons d ds ih => simp [ih, Nat.add_assoc]

namespace Endpoint.Desk
variable {d d' : Desk} {answer : Except Refusal Endpoint}

theorem now_napped (h : d.clock.frozen = false) (waits : List Duration) :
    (napped sleep d waits).now = d.now + .total waits ∧ (napped sleep d waits).clock.frozen = false := by
  induction waits generalizing d with
  | nil => exact ⟨rfl, h⟩
  | cons t waits ih =>
    obtain ⟨hnow, hfrozen⟩ := ih (d := d.sleep t) h
    refine ⟨?_, hfrozen⟩
    have hslept : (d.sleep t).now = d.now + t := if_neg (by rw [h]; decide)
    have hcons : napped sleep d (t :: waits) = napped sleep (d.sleep t) waits := rfl
    rw [hcons, hnow, hslept]
    ext
    simp [Nat.add_assoc]

theorem get_clock (hget : d.get = (answer, d')) (h : d.clock.frozen = false) :
    ∃ waits, d'.clock.sleeps = d.clock.sleeps ++ waits ∧ d'.now = d.now + .total waits ∧ d'.clock.frozen = false := by
  obtain ⟨hwaits, -⟩ := waits_acquire hget
  obtain ⟨hnow, hfrozen⟩ := now_napped h (naps sleep d.pool.settings.waitAttempts 0 d)
  refine ⟨naps sleep d.pool.settings.waitAttempts 0 d, ?_, ?_, ?_⟩
  · rw [hwaits.clock, sleeps_napped]
  · rw [← hnow, now, hwaits.clock, now]
  · rw [hwaits.clock, hfrozen]

theorem get_mem {e : Endpoint} (hget : d.get = (.ok e, d')) (h : d.pool.Valid) : e ∈ d'.pool.endpoints := by
  have hentries := entries_get h
  rw [hget] at hentries
  obtain ⟨i, r, -, rfl, -, hchosen⟩ := Pool.select?_cases h (get_granted hget).2.1
  rw [Pool.endpoints, hentries]
  exact List.mem_map_of_mem (List.mem_of_getElem? hchosen.entry)

end Endpoint.Desk

namespace Work.Attempts
open Endpoint
variable {σ : Type}

/-- What is done in the attempts at a unit, with the desk before it and after it. -/
inductive Deed where
  | asked (answer : Except Refusal Endpoint) (before after : Desk)
  | executed (e : Endpoint) (outcome : Outcome) (before after : Desk)
  | slept (t : Duration)

namespace Deed

/-- The sleeps that the clock noted while an endpoint was asked for. -/
def waits : Deed → List Duration
  | asked _ before after => after.clock.sleeps.drop before.clock.sleeps.length
  | _ => []

/-- How far the executor moved the clock. -/
def advances : Deed → List Duration
  | executed _ _ before after => [after.now - before.now]
  | _ => []

def pauses : Deed → List Duration
  | slept t => [t]
  | _ => []

def unitFailed : Deed → Bool
  | executed _ outcome _ _ => outcome.status = .failed .unit
  | _ => false

def chosen? : Deed → Option Endpoint
  | asked (.ok e) _ _ => some e
  | _ => none

def used? : Deed → Option Endpoint
  | executed e _ _ _ => some e
  | _ => none

end Deed

/-- The failures of the unit that did not end the attempts. -/
def retried (log : List Deed) : Nat := log.dropLast.countP (·.unitFailed)

/-- The same attempts, with a record of all that is done beside the state. -/
def observed (desk : σ → Desk) (a : Attempts σ) : Attempts (σ × List Deed) where
  acquire x :=
    let (answer, t) := a.acquire x.1
    (answer, t, x.2 ++ [.asked answer (desk x.1) (desk t)])
  execute unit e x :=
    let (outcome, t) := a.execute unit e x.1
    (outcome, t, x.2 ++ [.executed e outcome (desk x.1) (desk t)])
  now x := a.now x.1
  sleep d x := (a.sleep d x.1, x.2 ++ [.slept d])
  hold e x := (a.hold e x.1, x.2)
  release e x := (a.release e x.1, x.2)
  succeed e x := (a.succeed e x.1, x.2)
  fail e leased x := (a.fail e leased x.1, x.2)

theorem acquire_observed (desk : σ → Desk) {a : Attempts σ} {s t : σ} {answer : Except Refusal Endpoint}
    (h : a.acquire s = (answer, t)) (log : List Deed) :
    (observed desk a).acquire (s, log) = (answer, t, log ++ [.asked answer (desk s) (desk t)]) := by
  simp [observed, h]

theorem attempt_observed (desk : σ → Desk) {a : Attempts σ} {unit : WorkUnit} {e : Endpoint} {s t : σ} {o : Outcome}
    {leased : Duration} (h : a.attempt unit e s = (o, leased, t)) (log : List Deed) :
    (observed desk a).attempt unit e (s, log) = (o, leased, t,
      log ++ [.executed e o (desk (a.hold e s)) (desk (a.execute unit e (a.hold e s)).2)]) := by
  simp only [attempt, Prod.mk.injEq] at h
  obtain ⟨rfl, rfl, rfl⟩ := h
  rfl

/-- The desk can be replaced, and the executor leaves its pool alone. He may take as much time as he likes. -/
structure Discreet (desk : σ → Desk) (put : Desk → σ → σ) (execute : WorkUnit → Endpoint → σ → Outcome × σ) :
    Prop where
  desk_put : ∀ d s, desk (put d s) = d
  pool_eq : ∀ unit e s, (desk (execute unit e s).2).pool = (desk s).pool
  frozen_eq : ∀ unit e s, (desk (execute unit e s).2).clock.frozen = (desk s).clock.frozen
  now_le : ∀ unit e s, (desk s).now ≤ (desk (execute unit e s).2).now

/-- The books that are shown while an endpoint is at work. -/
def lent (d : Desk) (e : Endpoint) : List (Endpoint × Nat) :=
  if d.pool.settings.policy = .load then Pool.lend e d.pool.books else d.pool.books

/-- Where leases are kept, there is room for one more in every counter. -/
def Roomy (d : Desk) : Prop := d.pool.settings.policy = .load → Pool.Spacious d.pool.books

/-- The books at a deed, as they have to be when these were the first ones. Somebody may have lost his place since. -/
def Deed.Bookkept (first : Desk) : Deed → Prop
  | asked _ before after =>
    Roomy first → before.pool.books.Sublist first.pool.books ∧ after.pool.books.Sublist first.pool.books
  | executed e _ before after =>
    e ∈ before.pool.endpoints ∧ after.pool = before.pool ∧
      (Roomy first → before.pool.books.Sublist (lent first e))
  | slept _ => True

def spent (log : List Deed) : Duration :=
  .total (log.flatMap Deed.advances) + .total (log.flatMap Deed.waits) + .total (log.flatMap Deed.pauses)

/-- A desk at which some attempts were made, so many of them followed by a pause. -/
structure Underway (p : RetryPolicy) (first : Desk) (retries : Nat) (log : List Deed) (d : Desk) : Prop where
  pool : first.pool.Continues d.pool
  frozen : d.clock.frozen = false
  now_eq : d.now = first.now + spent log
  pauses_eq : log.flatMap Deed.pauses = List.replicate retries p.unitInterval
  books : Roomy first → d.pool.books.Sublist first.pool.books
  bookkept : ∀ x ∈ log, x.Bookkept first

section
variable {p : RetryPolicy} {first d d' : Desk} {n : Nat} {log : List Deed} {e : Endpoint} {o : Outcome}
  {answer : Except Refusal Endpoint}

theorem underway_start (hv : d.pool.Valid) (h : d.clock.frozen = false) : Underway p d 0 [] d where
  pool := hv.continues
  frozen := h
  now_eq := by
    ext
    simp [spent]
  pauses_eq := rfl
  books _ := .refl _
  bookkept := List.forall_mem_nil _

theorem Underway.roomy (h : Underway p first n log d) (hroom : Roomy first) : Roomy d := fun hload x hx =>
  hroom (h.pool.settings ▸ hload) x ((h.books hroom).subset hx)

theorem bookkept_snoc {x : Deed} (h : ∀ y ∈ log, y.Bookkept first) (hx : x.Bookkept first) :
    ∀ y ∈ log ++ [x], y.Bookkept first :=
  List.forall_mem_append.mpr ⟨h, List.forall_mem_singleton.mpr hx⟩

theorem Underway.asked (h : Underway p first n log d) (hget : d.get = (answer, d')) :
    Underway p first n (log ++ [.asked answer d d']) d' := by
  have hpool : d.pool.Continues d'.pool := by simpa [hget] using (Desk.follows_get h.pool.valid).pool
  have hbooks : d'.pool.books = d.pool.books := Pool.books_congr (by simpa [hget] using Desk.entries_get h.pool.valid)
  obtain ⟨waits, hsleeps, hnow, hfrozen⟩ := Desk.get_clock hget h.frozen
  exact
    { pool := h.pool.trans hpool
      frozen := hfrozen
      now_eq := by
        rw [hnow, h.now_eq]
        ext
        simp [spent, Deed.advances, Deed.waits, Deed.pauses, hsleeps]
        omega
      pauses_eq := by simpa [Deed.pauses] using h.pauses_eq
      books := hbooks ▸ h.books
      bookkept := bookkept_snoc h.bookkept fun hroom => ⟨h.books hroom, hbooks ▸ h.books hroom⟩ }

theorem Underway.slept (h : Underway p first n log d) :
    Underway p first (n + 1) (log ++ [.slept p.unitInterval]) (d.sleep p.unitInterval) where
  pool := h.pool
  frozen := h.frozen
  now_eq := by
    have hslept : (d.sleep p.unitInterval).now = d.now + p.unitInterval := if_neg (by rw [h.frozen]; decide)
    rw [hslept, h.now_eq]
    ext
    simp [spent, Deed.advances, Deed.waits, Deed.pauses]
    omega
  pauses_eq := by
    rw [List.flatMap_append, h.pauses_eq, List.replicate_succ']
    rfl
  books := h.books
  bookkept := bookkept_snoc h.bookkept trivial

theorem Underway.succeed (h : Underway p first n log d) (e : Endpoint) :
    Underway p first n log (d.onPool (·.succeed e)) where
  pool := h.pool.trans (h.pool.valid.modify (f := .recover) e fun _ => rfl)
  frozen := h.frozen
  now_eq := h.now_eq
  pauses_eq := h.pauses_eq
  books := (Pool.books_succeed d.pool e).symm ▸ h.books
  bookkept := h.bookkept

theorem Underway.fail (h : Underway p first n log d) (e : Endpoint) (leased : Duration) :
    Underway p first n log (d.fail e (some leased)) where
  pool := h.pool.trans (h.pool.valid.fail e (some leased) d.now)
  frozen := h.frozen
  now_eq := h.now_eq
  pauses_eq := h.pauses_eq
  books hroom := (Pool.books_fail d.pool e (some leased) d.now).trans (h.books hroom)
  bookkept := h.bookkept

variable {desk : σ → Desk} {put : Desk → σ → σ} {execute : WorkUnit → Endpoint → σ → Outcome × σ} {s t : σ}
  {unit : WorkUnit} {leased : Duration}

theorem lent_sublist (hs : d.pool.settings = first.pool.settings) (h : d.pool.books.Sublist first.pool.books)
    (e : Endpoint) : (lent d e).Sublist (lent first e) := by
  rw [lent, lent, hs]
  split
  · exact h.map _
  · exact h

def holding (d : Desk) (e : Endpoint) : Desk :=
  if d.pool.settings.policy = .load then d.onPool (·.hold e) else d

theorem desk_hold (hd : Discreet desk put execute) (s : σ) (e : Endpoint) :
    desk ((atDesk desk put execute).hold e s) = holding (desk s) e := by
  simp only [atDesk, holding]
  split
  · rw [hd.desk_put]
  · rfl

theorem desk_succeed (hd : Discreet desk put execute) (s : σ) (e : Endpoint) :
    desk ((atDesk desk put execute).succeed e s) = (desk s).onPool (·.succeed e) := hd.desk_put _ _

theorem desk_fail (hd : Discreet desk put execute) (s : σ) (e : Endpoint) (leased : Duration) :
    desk ((atDesk desk put execute).fail e leased s) = (desk s).fail e (some leased) := hd.desk_put _ _

theorem desk_sleep (hd : Discreet desk put execute) (s : σ) (d : Duration) :
    desk ((atDesk desk put execute).sleep d s) = (desk s).sleep d := hd.desk_put _ _

theorem clock_holding (d : Desk) (e : Endpoint) : (holding d e).clock = d.clock := by
  rw [holding]
  split <;> rfl

theorem books_holding (hv : d.pool.Valid) (hroom : Roomy d) (he : e ∈ d.pool.endpoints) :
    (holding d e).pool.books = lent d e := by
  rw [holding, lent]
  split
  · exact hv.books_hold (hroom ‹_›) he
  · rfl

theorem continues_holding (hv : d.pool.Valid) (e : Endpoint) : d.pool.Continues (holding d e).pool := by
  rw [holding]
  split
  · exact hv.modify (f := .hold) e fun _ => rfl
  · exact hv.continues

theorem endpoints_holding (d : Desk) (e : Endpoint) : (holding d e).pool.endpoints = d.pool.endpoints := by
  rw [holding]
  split
  · rcases Pool.modify_cases d.pool e .hold with ⟨-, heq⟩ | ⟨i, r, hr, -, heq⟩
    · rw [Desk.onPool, Pool.hold, heq]
    · rw [Desk.onPool, Pool.hold, heq]
      exact Pool.map_put _ hr rfl
  · rfl

theorem desk_release (hd : Discreet desk put execute) (s : σ) (e : Endpoint) :
    desk ((atDesk desk put execute).release e s) =
      if (desk s).pool.settings.policy = .load then (desk s).onPool (·.release e) else desk s := by
  simp only [atDesk]
  split
  · rw [hd.desk_put]
  · rfl

theorem continues_release (hd : Discreet desk put execute) (hv : (desk s).pool.Valid)
    (ht : (desk t).pool = (holding (desk s) e).pool) :
    (desk s).pool.Continues (desk ((atDesk desk put execute).release e t)).pool ∧
      (desk ((atDesk desk put execute).release e t)).clock = (desk t).clock := by
  have hheld := continues_holding hv e
  rw [← ht] at hheld
  rw [desk_release hd]
  split
  · exact ⟨hheld.trans (hheld.valid.modify (f := .release) e fun _ => rfl), rfl⟩
  · exact ⟨hheld, rfl⟩

theorem pool_release (hd : Discreet desk put execute) (hv : (desk s).pool.Valid) (hroom : Roomy (desk s))
    (he : e ∈ (desk s).pool.endpoints) (ht : (desk t).pool = (holding (desk s) e).pool) :
    (desk ((atDesk desk put execute).release e t)).pool = (desk s).pool := by
  rw [desk_release hd, ht, (continues_holding hv e).settings]
  by_cases hload : (desk s).pool.settings.policy = .load
  · rw [if_pos hload, Desk.onPool, ht, holding, if_pos hload]
    exact hv.release_hold (hroom hload) he
  · rw [if_neg hload, ht, holding, if_neg hload]

/-- While the executor is at work the lease is on the books, and then it is gone. -/
theorem Underway.attempted (h : Underway p first n log (desk s)) (hd : Discreet desk put execute)
    (he : e ∈ (desk s).pool.endpoints) (hatt : (atDesk desk put execute).attempt unit e s = (o, leased, t)) :
    Underway p first n
      (log ++ [.executed e o (desk ((atDesk desk put execute).hold e s))
        (desk (execute unit e ((atDesk desk put execute).hold e s)).2)]) (desk t) := by
  simp only [attempt, Prod.mk.injEq] at hatt
  obtain ⟨rfl, -, rfl⟩ := hatt
  change Underway p first n _ (desk ((atDesk desk put execute).release e (execute unit e _).2))
  generalize hheld : (atDesk desk put execute).hold e s = held
  have hdesk : desk held = holding (desk s) e := hheld ▸ desk_hold hd s e
  have hclock : (desk held).clock = (desk s).clock := hdesk ▸ clock_holding (desk s) e
  have hworked : (desk (execute unit e held).2).pool = (holding (desk s) e).pool := hdesk ▸ hd.pool_eq unit e held
  obtain ⟨hpool, hreleased⟩ := continues_release hd h.pool.valid hworked
  exact
    { pool := h.pool.trans hpool
      frozen := by rw [hreleased, hd.frozen_eq, hclock, h.frozen]
      now_eq := by
        have hstart : (desk held).now.nanos = first.now.nanos + (spent log).nanos := by
          rw [Desk.now, hclock, ← Desk.now, h.now_eq]
          rfl
        have hle : (desk held).now.nanos ≤ (desk (execute unit e held).2).now.nanos := hd.now_le unit e held
        rw [Desk.now, hreleased, ← Desk.now]
        ext
        simp [spent, Deed.advances, Deed.waits, Deed.pauses] at hstart ⊢
        omega
      pauses_eq := by simpa [Deed.pauses] using h.pauses_eq
      books := fun hroom => by
        rw [Pool.books_congr (congrArg Pool.entries (pool_release hd h.pool.valid (h.roomy hroom) he hworked))]
        exact h.books hroom
      bookkept := by
        refine bookkept_snoc h.bookkept ⟨?_, hd.pool_eq unit e held, fun hroom => ?_⟩
        · rw [hdesk, endpoints_holding]
          exact he
        · rw [hdesk, books_holding h.pool.valid (h.roomy hroom) he]
          exact lent_sublist h.pool.settings (h.books hroom) e }

theorem get_of_acquire (hd : Discreet desk put execute) (h : (atDesk desk put execute).acquire s = (answer, t)) :
    (desk s).get = (answer, desk t) := by
  obtain ⟨rfl, rfl⟩ := Prod.mk.inj h
  rw [hd.desk_put]
  rfl

def logged (desk : σ → Desk) (a : Attempts σ) (unit : WorkUnit) (log : List Deed) (s t : σ) (e : Endpoint)
    (o : Outcome) : List Deed :=
  (log ++ [.asked (.ok e) (desk s) (desk t)]) ++
    [.executed e o (desk (a.hold e t)) (desk (a.execute unit e (a.hold e t)).2)]

theorem Underway.tried {t' : σ} (h : Underway p first n log (desk s)) (hd : Discreet desk put execute)
    (hget : (atDesk desk put execute).acquire s = (.ok e, t))
    (hatt : (atDesk desk put execute).attempt unit e t = (o, leased, t')) :
    Underway p first n (logged desk (atDesk desk put execute) unit log s t e o) (desk t') := by
  have hanswer := get_of_acquire hd hget
  exact (h.asked hanswer).attempted hd (Desk.get_mem hanswer h.pool.valid) hatt

/-- After so many failures of the unit; whoever was chosen was used. -/
structure Between (n : Nat) (log : List Deed) : Prop where
  failed : log.countP (·.unitFailed) = n
  used : log.filterMap Deed.used? = log.filterMap Deed.chosen?

theorem Between.used_logged {a : Attempts σ} (h : Between n log) :
    (logged desk a unit log s t e o).filterMap Deed.used? = (logged desk a unit log s t e o).filterMap Deed.chosen? := by
  simp only [logged, List.filterMap_append, h.used, List.append_assoc]
  rfl

theorem Between.endpointFailed {a : Attempts σ} (h : Between n log) (ho : o.status = .failed .endpoint) :
    Between n (logged desk a unit log s t e o) where
  failed := by
    rw [logged, List.countP_append, List.countP_append, h.failed]
    simp [Deed.unitFailed, ho]
  used := h.used_logged

theorem Between.unitFailed {a : Attempts σ} (h : Between n log) (ho : o.status = .failed .unit) (d : Duration) :
    Between (n + 1) (logged desk a unit log s t e o ++ [.slept d]) where
  failed := by
    rw [logged, List.countP_append, List.countP_append, List.countP_append, h.failed]
    simp [Deed.unitFailed, ho]
  used := by
    rw [List.filterMap_append, List.filterMap_append, h.used_logged]
    rfl

/-- What the attempts at a unit have cost. The outcome tells how far the clock has moved, and what is in the record
accounts for it; the lease that is taken for each attempt has been returned at the end, unless a counter of leases
was at its end before. -/
structure Accounted (p : RetryPolicy) (first last : Desk) (log : List Deed) (o : Outcome) : Prop where
  now_eq : last.now = first.now + o.elapsed
  elapsed_eq : o.elapsed = spent log
  pauses_eq : log.flatMap Deed.pauses = List.replicate (retried log) p.unitInterval
  used_eq : log.filterMap Deed.used? = log.filterMap Deed.chosen?
  bookkept : ∀ x ∈ log, x.Bookkept first
  returned : Roomy first → last.pool.books.Sublist first.pool.books

theorem Underway.accounted {x : Deed} (h : Underway p first n (log ++ [x]) d) (hn : log.countP (·.unitFailed) = n)
    (hused : (log ++ [x]).filterMap Deed.used? = (log ++ [x]).filterMap Deed.chosen?)
    (ho : o.elapsed = d.now - first.now) : Accounted p first d (log ++ [x]) o := by
  have helapsed : o.elapsed = spent (log ++ [x]) := by
    rw [ho, h.now_eq]
    ext
    simp
  have hretried : retried (log ++ [x]) = n := by rw [retried, List.dropLast_concat, hn]
  exact ⟨helapsed ▸ h.now_eq, helapsed, hretried ▸ h.pauses_eq, hused, h.bookkept, h.books⟩

theorem Underway.ended {a : Attempts σ} (h : Underway p first n (logged desk a unit log s t e o) d)
    (hb : Between n log) : Accounted p first d (logged desk a unit log s t e o) (o.withElapsed (d.now - first.now)) :=
  h.accounted (by simpa [Deed.unitFailed] using hb.failed) hb.used_logged rfl

theorem Underway.refused {refusal : Refusal} (h : Underway p first n (log ++ [.asked (.error refusal) d' d]) d)
    (hb : Between n log) : Accounted p first d (log ++ [.asked (.error refusal) d' d])
      (.failure (.poolExhausted refusal.waits) (d.now - first.now) refusal.message) := by
  refine h.accounted hb.failed ?_ rfl
  rw [List.filterMap_append, List.filterMap_append, hb.used]
  rfl

theorem attempts_observed (hd : Discreet desk put execute) (p : RetryPolicy) (unit : WorkUnit) (failures retries : Nat)
    (s : σ) (h : Underway p first retries log (desk s)) (hb : Between retries log) :
    ∃ log', (observed desk (atDesk desk put execute)).runFrom p unit first.now failures retries (s, log) =
        (((atDesk desk put execute).runFrom p unit first.now failures retries s).1,
          ((atDesk desk put execute).runFrom p unit first.now failures retries s).2, log') ∧
      Accounted p first (desk ((atDesk desk put execute).runFrom p unit first.now failures retries s).2) log'
        ((atDesk desk put execute).runFrom p unit first.now failures retries s).1 := by
  -- Along the recursion of the attempts; each adds a look at the pool and one execution to the record.
  induction failures, retries, s using runFrom.induct (atDesk desk put execute) p unit first.now generalizing log with
  | case1 failures retries s refusal t hget =>
    rw [runFrom, runFrom, acquire_observed desk hget, hget]
    exact ⟨_, rfl, (h.asked (get_of_acquire hd hget)).refused hb⟩
  | case2 failures retries s e t hget o leased t' hatt hs =>
    rw [runFrom, runFrom, acquire_observed desk hget, hget]
    simp only [attempt_observed desk hatt, hatt, hs, desk_succeed hd]
    exact ⟨_, rfl, ((h.tried hd hget hatt).succeed e).ended hb⟩
  | case3 failures retries s e t hget o leased t' hatt hs t'' hlt =>
    rename_i ih
    rw [runFrom, runFrom, acquire_observed desk hget, hget]
    simp only [attempt_observed desk hatt, hatt, hs, if_pos hlt]
    exact ih (desk_fail hd t' e leased ▸ (h.tried hd hget hatt).fail e leased) (hb.endpointFailed hs)
  | case4 failures retries s e t hget o leased t' hatt hs hlt =>
    rw [runFrom, runFrom, acquire_observed desk hget, hget]
    simp only [attempt_observed desk hatt, hatt, hs, if_neg hlt, desk_fail hd]
    exact ⟨_, rfl, ((h.tried hd hget hatt).fail e leased).ended hb⟩
  | case5 failures retries s e t hget o leased t' hatt hs t'' hlt =>
    rename_i ih
    rw [runFrom, runFrom, acquire_observed desk hget, hget]
    simp only [attempt_observed desk hatt, hatt, hs, if_pos hlt]
    have hpaused := ((h.tried hd hget hatt).succeed e).slept
    rw [← desk_succeed hd, ← desk_sleep hd] at hpaused
    exact ih hpaused (hb.unitFailed hs p.unitInterval)
  | case6 failures retries s e t hget o leased t' hatt hs hlt =>
    rw [runFrom, runFrom, acquire_observed desk hget, hget]
    simp only [attempt_observed desk hatt, hatt, hs, if_neg hlt, desk_succeed hd]
    exact ⟨_, rfl, ((h.tried hd hget hatt).succeed e).ended hb⟩
  | case7 failures retries s e t hget o leased t' hatt waits hs =>
    rw [runFrom, runFrom, acquire_observed desk hget, hget]
    simp only [attempt_observed desk hatt, hatt, hs]
    exact ⟨_, rfl, (h.tried hd hget hatt).ended hb⟩

end

/-- Whatever the policies and whatever has become of the pool since it was built, the outcome of an execution tells how
far the clock has moved, if it moves with those who sleep on it; the time is that of the executor, of the waits for an
endpoint and of a pause for each failure of the unit that was retried. By load, the endpoint that is at work has one
lease more than at first, if its counter had room; nobody else has, nor anybody when it is over. -/
theorem accounted_run {desk : σ → Desk} {put : Desk → σ → σ} {execute : WorkUnit → Endpoint → σ → Outcome × σ}
    (hd : Discreet desk put execute) (p : RetryPolicy) (unit : WorkUnit) (s : σ) (hv : (desk s).pool.Valid)
    (hclock : (desk s).clock.frozen = false) :
    ∃ log, (observed desk (atDesk desk put execute)).run p unit (s, []) =
        (((atDesk desk put execute).run p unit s).1, ((atDesk desk put execute).run p unit s).2, log) ∧
      Accounted p (desk s) (desk ((atDesk desk put execute).run p unit s).2) log
        ((atDesk desk put execute).run p unit s).1 :=
  attempts_observed hd p unit 0 0 s (underway_start hv hclock) ⟨rfl, rfl⟩

/-- An executor with a script of times and outcomes. -/
def prompted (_ : WorkUnit) (_ : Endpoint) (x : Desk × List (Duration × Outcome)) :
    Outcome × Desk × List (Duration × Outcome) :=
  match x.2 with
  | [] => (.success .zero, x)
  | (t, o) :: script => (o, { x.1 with clock := x.1.clock.advance t }, script)

theorem discreet_prompted : Discreet Prod.fst (fun d x => (d, x.2)) prompted where
  desk_put _ _ := rfl
  pool_eq _ _ x := by rcases x with ⟨d, _ | ⟨⟨t, o⟩, script⟩⟩ <;> rfl
  frozen_eq _ _ x := by rcases x with ⟨d, _ | ⟨⟨t, o⟩, script⟩⟩ <;> rfl
  now_le _ _ x := by
    rcases x with ⟨d, _ | ⟨⟨t, o⟩, script⟩⟩
    · exact Nat.le_refl _
    · exact Nat.le_add_right _ _

/-- Of two endpoints one is in quarantine; one more error will remove it. -/
def halfDown : Desk where
  pool :=
    { settings := ⟨.load, 1, .ofMillis 50, 3, some 2⟩
      entries := [⟨⟨0, "a", none⟩, 0, none, 3⟩, ⟨⟨1, "b", none⟩, 1, some .zero, 1⟩]
      cursor := 0
      closed := false }
  clock := .start false
  draws := 0

/-- The unit fails, the first endpoint, and after a wait the second one; after another wait the first is free again. -/
def mishaps : List (Duration × Outcome) :=
  [(.ofMillis 7, .failure .unit .zero "too busy"), (.ofMillis 5, .failure .endpoint .zero ""),
   (.ofMillis 1, .failure .endpoint .zero ""), (.ofMillis 2, .success .zero)]

/-- One execution after all of these mishaps. -/
def eventful : Outcome × Desk × List (Duration × Outcome) :=
  (atDesk Prod.fst (fun d x => (d, x.2)) prompted).run ⟨3, 2, .ofMillis 10, ["busy"]⟩ (.single 0 "x" .plain)
    (halfDown, mishaps)

/-- The second endpoint is gone, the first has its three leases again, and of 74 milliseconds the executor has had 15,
the waits 49 and the pause 10. -/
theorem accounted_eventful :
    halfDown.pool.Valid ∧ Roomy halfDown ∧ halfDown.clock.frozen = false ∧ eventful.1 = .success (.ofMillis 74) ∧
      eventful.2.1.pool.books = [(⟨0, "a", none⟩, 3)] ∧
      ∃ log, (observed Prod.fst (atDesk Prod.fst (fun d x => (d, x.2)) prompted)).run ⟨3, 2, .ofMillis 10, ["busy"]⟩
          (.single 0 "x" .plain) ((halfDown, mishaps), []) = (eventful.1, eventful.2, log) ∧
        Accounted ⟨3, 2, .ofMillis 10, ["busy"]⟩ halfDown eventful.2.1 log eventful.1 := by
  have hv : halfDown.pool.Valid := ⟨by decide, by decide⟩
  have hroom : Roomy halfDown := fun _ => by unfold Pool.Spacious; decide
  have hrun : eventful.1 = .success (.ofMillis 74) ∧ eventful.2.1.pool.books = [(⟨0, "a", none⟩, 3)] := by
    unfold eventful run
    iterate 4 unfold runFrom
    exact ⟨rfl, rfl⟩
  exact ⟨hv, hroom, rfl, hrun.1, hrun.2, accounted_run discreet_prompted _ _ (halfDown, mishaps) hv rfl⟩

end Work.Attempts
end BatchJob
