import BatchJob.Worker.Counters
import BatchJob.Worker.Task
import Mathlib.Data.Multiset.Filter
import Mathlib.Data.Multiset.ZeroCons

/-! The accounts of a worker pool: which tasks wait and which are at work, whoever holds them, what
became of all others, and the counters. Each entry of a journal changes the accounts in one way, and
every entry keeps them balanced. -/
namespace BatchJob.Worker
open Work

/-- What can happen to a submission: it is made, taken back, dropped, started, finished, or its answer
is asked for and given. -/
inductive Entry where
  | submitted (u : WorkUnit)
  | refused (t : Task)
  | dropped (t : Task)
  | started (t : Task)
  | finished (t : Task) (o : Outcome)
  | told (serial : Nat) (answer : Except PoolError Outcome)

def setReplyAt (submissions : List Submission) (serial : Nat) (r : Reply) : List Submission :=
  submissions.modify serial fun s => { s with reply := r }

theorem getElem?_setReplyAt_self {submissions : List Submission} {serial : Nat} {s : Submission}
    (h : submissions[serial]? = some s) (r : Reply) :
    (setReplyAt submissions serial r)[serial]? = some ⟨s.unit, r⟩ := by simp [setReplyAt, h]

theorem getElem?_setReplyAt_of_ne {submissions : List Submission} {serial i : Nat} (h : serial ≠ i)
    (r : Reply) : (setReplyAt submissions serial r)[i]? = submissions[i]? := by
  simp [setReplyAt, h]

theorem map_unit_setReplyAt (submissions : List Submission) (serial : Nat) (r : Reply) :
    (setReplyAt submissions serial r).map (·.unit) = submissions.map (·.unit) := by
  apply List.ext_getElem?
  intro i
  by_cases hi : serial = i
  · subst hi
    cases hs : submissions[serial]? with
    | none => simp [setReplyAt, hs]
    | some s => simp [getElem?_setReplyAt_self hs, hs]
  · simp [getElem?_setReplyAt_of_ne hi]

theorem countP_setReplyAt (p : Submission → Bool) {submissions : List Submission} {serial : Nat}
    {s : Submission} (h : submissions[serial]? = some s) (r : Reply) :
    (setReplyAt submissions serial r).countP p + (if p s then 1 else 0) =
      submissions.countP p + (if p ⟨s.unit, r⟩ then 1 else 0) := by
  induction submissions generalizing serial with
  | nil => simp at h
  | cons first rest ih =>
    cases serial with
    | zero =>
      simp only [List.getElem?_cons_zero, Option.some.injEq] at h
      subst h
      simp only [setReplyAt, List.modify_zero_cons, List.countP_cons]
      omega
    | succ n =>
      have hn : rest[n]? = some s := by simpa using h
      have hrest := ih hn
      simp only [setReplyAt, List.modify_succ_cons, List.countP_cons] at hrest ⊢
      omega

/-- `waiting` are the tasks that were submitted and not yet started. -/
structure Ledger where
  waiting : Multiset Task
  running : Multiset Task
  completions : List Completed
  submissions : List Submission
  counters : Counters

namespace Ledger

/-- What an entry does to the accounts, where it can be made. -/
inductive Step : Ledger → Entry → Ledger → Prop
  | submit (l : Ledger) (u : WorkUnit) :
    Step l (.submitted u)
      { l with
        waiting := ⟨l.submissions.length, u⟩ ::ₘ l.waiting
        submissions := l.submissions ++ [⟨u, .pending⟩]
        counters := l.counters.submit }
  | refuse {l : Ledger} {t : Task} {rest : Multiset Task} (h : l.waiting = t ::ₘ rest) :
    Step l (.refused t)
      { l with
        waiting := rest
        submissions := setReplyAt l.submissions t.serial .refused
        counters := l.counters.takeBack }
  | drop {l : Ledger} {t : Task} {rest : Multiset Task} (h : l.waiting = t ::ₘ rest) :
    Step l (.dropped t)
      { l with
        waiting := rest
        submissions := setReplyAt l.submissions t.serial .dropped
        counters := l.counters.discard }
  | start {l : Ledger} {t : Task} {rest : Multiset Task} (h : l.waiting = t ::ₘ rest) :
    Step l (.started t)
      { l with
        waiting := rest
        running := t ::ₘ l.running
        counters := l.counters.start }
  | finish {l : Ledger} {t : Task} {rest : Multiset Task} (h : l.running = t ::ₘ rest) (o : Outcome) :
    Step l (.finished t o)
      { l with
        running := rest
        completions := l.completions ++ [⟨t, o⟩]
        submissions := setReplyAt l.submissions t.serial (.answered o)
        counters := l.counters.finish o.isSuccess }
  | tell {l : Ledger} {i : Nat} {u : WorkUnit} {o : Outcome}
      (h : l.submissions[i]? = some ⟨u, .answered o⟩) :
    Step l (.told i (.ok o)) { l with submissions := setReplyAt l.submissions i (.fetched o) }
  | tellCancelled {l : Ledger} {i : Nat} {u : WorkUnit} {r : Reply}
      (h : l.submissions[i]? = some ⟨u, r⟩) (hr : r = .dropped ∨ ∃ o, r = .fetched o) :
    Step l (.told i (.error .cancelled)) l

/-- The tasks are the submissions that still wait for their answer. -/
structure Open (tasks : Multiset Task) (submissions : List Submission) : Prop where
  nodup : tasks.Nodup
  mem_iff : ∀ t : Task, t ∈ tasks ↔ submissions[t.serial]? = some ⟨t.unit, .pending⟩

/-- The completions are the submissions that have their answer. -/
structure Closed (completions : List Completed) (submissions : List Submission) : Prop where
  nodup : completions.Nodup
  mem_iff : ∀ c : Completed, c ∈ completions ↔
    submissions[c.task.serial]? = some ⟨c.task.unit, .answered c.outcome⟩ ∨
      submissions[c.task.serial]? = some ⟨c.task.unit, .fetched c.outcome⟩

variable {tasks : Multiset Task} {completions : List Completed} {submissions : List Submission}

theorem Open.submit (h : Open tasks submissions) (u : WorkUnit) :
    Open (⟨submissions.length, u⟩ ::ₘ tasks) (submissions ++ [⟨u, .pending⟩]) := by
  have hlt : ∀ t ∈ tasks, t.serial < submissions.length := by
    intro t ht
    exact (List.getElem?_eq_some_iff.mp ((h.mem_iff t).mp ht)).1
  constructor
  · refine Multiset.nodup_cons.mpr ⟨fun hm => ?_, h.nodup⟩
    exact lt_irrefl _ (hlt _ hm)
  · intro t
    rw [Multiset.mem_cons]
    constructor
    · rintro (rfl | ht)
      · simp
      · rw [List.getElem?_append_left (hlt t ht)]
        exact (h.mem_iff t).mp ht
    · intro ht
      by_cases hs : t.serial < submissions.length
      · rw [List.getElem?_append_left hs] at ht
        exact Or.inr ((h.mem_iff t).mpr ht)
      · have hl := (List.getElem?_eq_some_iff.mp ht).1
        have he : t.serial = submissions.length := by simp at hl; omega
        cases t with
        | mk serial unit =>
          simp only at he
          subst he
          simp only [List.getElem?_append_right (le_refl _), Nat.sub_self, List.getElem?_cons_zero,
            Option.some.injEq, Submission.mk.injEq, and_true] at ht
          exact Or.inl (by rw [ht])

theorem Open.leave {t : Task} (h : Open (t ::ₘ tasks) submissions) {r : Reply} (hr : r ≠ .pending) :
    Open tasks (setReplyAt submissions t.serial r) := by
  obtain ⟨hnot, hnodup⟩ := Multiset.nodup_cons.mp h.nodup
  have ht := (h.mem_iff t).mp (Multiset.mem_cons_self t tasks)
  refine ⟨hnodup, fun other => ?_⟩
  by_cases hs : t.serial = other.serial
  · constructor
    · intro hm
      have ho := (h.mem_iff other).mp (Multiset.mem_cons_of_mem hm)
      rw [← hs, ht] at ho
      have : other = t := by
        cases t; cases other
        simp_all
      exact absurd (this ▸ hm) hnot
    · intro hm
      rw [← hs, getElem?_setReplyAt_self ht] at hm
      simp [hr] at hm
  · rw [getElem?_setReplyAt_of_ne hs, ← h.mem_iff other, Multiset.mem_cons]
    have hne : other ≠ t := fun he => hs (by rw [he])
    simp [hne]

theorem Open.of_getElem? {other : List Submission} (h : Open tasks submissions)
    (hsame : ∀ (i : Nat) (u : WorkUnit), other[i]? = some ⟨u, .pending⟩ ↔ submissions[i]? = some ⟨u, .pending⟩) :
    Open tasks other :=
  ⟨h.nodup, fun t => by rw [hsame]; exact h.mem_iff t⟩

theorem Closed.of_getElem? {other : List Submission} (h : Closed completions submissions)
    (hsame : ∀ (i : Nat) (u : WorkUnit) (o : Outcome),
      (other[i]? = some ⟨u, .answered o⟩ ∨ other[i]? = some ⟨u, .fetched o⟩) ↔
      (submissions[i]? = some ⟨u, .answered o⟩ ∨ submissions[i]? = some ⟨u, .fetched o⟩)) :
    Closed completions other :=
  ⟨h.nodup, fun c => by rw [hsame]; exact h.mem_iff c⟩

theorem Closed.submit (h : Closed completions submissions) (u : WorkUnit) :
    Closed completions (submissions ++ [⟨u, .pending⟩]) := by
  refine h.of_getElem? fun i v o => ?_
  rcases lt_trichotomy i submissions.length with hi | hi | hi
  · rw [List.getElem?_append_left hi]
  · subst hi
    simp
  · rw [List.getElem?_eq_none (by simp; omega), List.getElem?_eq_none (by omega)]

theorem Closed.leave {i : Nat} {v : WorkUnit} (h : Closed completions submissions)
    (hi : submissions[i]? = some ⟨v, .pending⟩) {r : Reply} (hr : r = .refused ∨ r = .dropped) :
    Closed completions (setReplyAt submissions i r) := by
  refine h.of_getElem? fun j u o => ?_
  by_cases hj : i = j
  · subst hj
    rw [getElem?_setReplyAt_self hi, hi]
    rcases hr with rfl | rfl <;> simp
  · rw [getElem?_setReplyAt_of_ne hj]

theorem Closed.finish {t : Task} (h : Closed completions submissions)
    (ht : submissions[t.serial]? = some ⟨t.unit, .pending⟩) (o : Outcome) :
    Closed (completions ++ [⟨t, o⟩]) (setReplyAt submissions t.serial (.answered o)) := by
  have hnew : ∀ c ∈ completions, c.task.serial ≠ t.serial := by
    intro c hc hs
    have hm := (h.mem_iff c).mp hc
    rw [hs, ht] at hm
    simp at hm
  constructor
  · rw [List.nodup_append]
    refine ⟨h.nodup, List.nodup_singleton _, fun c hc d hd => ?_⟩
    rw [List.mem_singleton.mp hd]
    rintro rfl
    exact hnew _ hc rfl
  · intro c
    rw [List.mem_append, List.mem_singleton]
    by_cases hs : t.serial = c.task.serial
    · rw [← hs, getElem?_setReplyAt_self ht]
      constructor
      · rintro (hc | rfl)
        · exact absurd hs.symm (hnew c hc)
        · simp
      · intro hc
        right
        obtain ⟨⟨serial, unit⟩, outcome⟩ := c
        cases t
        simp_all
    · rw [getElem?_setReplyAt_of_ne hs, ← h.mem_iff c]
      have hne : c ≠ ⟨t, o⟩ := fun he => hs (by rw [he])
      simp [hne]

theorem Closed.tell {i : Nat} {v : WorkUnit} {o : Outcome} (h : Closed completions submissions)
    (hi : submissions[i]? = some ⟨v, .answered o⟩) :
    Closed completions (setReplyAt submissions i (.fetched o)) := by
  refine h.of_getElem? fun j u other => ?_
  by_cases hj : i = j
  · subst hj
    rw [getElem?_setReplyAt_self hi, hi]
    simp
  · rw [getElem?_setReplyAt_of_ne hj]

theorem Open.tell {i : Nat} {v : WorkUnit} {o : Outcome} (h : Open tasks submissions)
    (hi : submissions[i]? = some ⟨v, .answered o⟩) :
    Open tasks (setReplyAt submissions i (.fetched o)) := by
  refine h.of_getElem? fun j u => ?_
  by_cases hj : i = j
  · subst hj
    rw [getElem?_setReplyAt_self hi, hi]
    simp
  · rw [getElem?_setReplyAt_of_ne hj]

/-- The tasks in the pool, those that completed and the counters agree with what became of each
submission. -/
structure Balanced (l : Ledger) : Prop where
  tasks : Open (l.waiting + l.running) l.submissions
  completed : Closed l.completions l.submissions
  queued_eq : l.counters.queued = l.waiting.card
  active_eq : l.counters.active = l.running.card
  completed_eq : l.counters.completed = l.completions.countP (·.outcome.isSuccess)
  failed_eq : l.counters.failed = l.completions.countP (!·.outcome.isSuccess)
  discarded_eq : l.counters.discarded = l.submissions.countP (·.reply = .dropped)
  submitted_eq : l.counters.submitted = l.submissions.countP (·.reply ≠ .refused)
  sum_eq : l.counters.submitted = l.counters.sum

def blank : Ledger := ⟨0, 0, [], [], .zero⟩

theorem balanced_blank : blank.Balanced where
  tasks := ⟨Multiset.nodup_zero, by simp [blank]⟩
  completed := ⟨List.nodup_nil, by simp [blank]⟩
  queued_eq := rfl
  active_eq := rfl
  completed_eq := rfl
  failed_eq := rfl
  discarded_eq := rfl
  submitted_eq := rfl
  sum_eq := rfl

variable {l l' : Ledger} {e : Entry}

theorem Balanced.pending_of_waiting (h : l.Balanced) {t : Task} (ht : t ∈ l.waiting) :
    l.submissions[t.serial]? = some ⟨t.unit, .pending⟩ :=
  (h.tasks.mem_iff t).mp (Multiset.mem_add.mpr (Or.inl ht))

theorem Balanced.pending_of_running (h : l.Balanced) {t : Task} (ht : t ∈ l.running) :
    l.submissions[t.serial]? = some ⟨t.unit, .pending⟩ :=
  (h.tasks.mem_iff t).mp (Multiset.mem_add.mpr (Or.inr ht))

theorem Balanced.leave (h : l.Balanced) {t : Task} {rest : Multiset Task}
    (hw : l.waiting = t ::ₘ rest) {r : Reply} (hr : r = .refused ∨ r = .dropped) :
    Open (rest + l.running) (setReplyAt l.submissions t.serial r) ∧
      Closed l.completions (setReplyAt l.submissions t.serial r) ∧
      l.counters.queued = rest.card + 1 := by
  have ht := h.pending_of_waiting (t := t) (by simp [hw])
  refine ⟨?_, h.completed.leave ht hr, ?_⟩
  · have hopen := h.tasks
    rw [hw, Multiset.cons_add] at hopen
    exact hopen.leave (by rcases hr with rfl | rfl <;> simp)
  · rw [h.queued_eq, hw, Multiset.card_cons]

theorem Balanced.submitted (h : l.Balanced) {u : WorkUnit} (hs : Step l (.submitted u) l') :
    l'.Balanced := by
  cases hs with
  | submit =>
    exact {
      tasks := by
        rw [Multiset.cons_add]
        exact h.tasks.submit u
      completed := h.completed.submit u
      queued_eq := by simp [Counters.submit, h.queued_eq]
      active_eq := h.active_eq
      completed_eq := h.completed_eq
      failed_eq := h.failed_eq
      discarded_eq := by simp [Counters.submit, h.discarded_eq, List.countP_append]
      submitted_eq := by simp [Counters.submit, h.submitted_eq, List.countP_append]
      sum_eq := by
        rw [Counters.sum_submit, ← h.sum_eq]
        rfl }

theorem Balanced.refused (h : l.Balanced) {t : Task} (hs : Step l (.refused t) l') :
    l'.Balanced := by
  cases hs with
  | @refuse _ rest hw =>
    obtain ⟨htasks, hcompleted, hq⟩ := h.leave hw (Or.inl rfl)
    have ht := h.pending_of_waiting (t := t) (by simp [hw])
    have hd := countP_setReplyAt (·.reply = .dropped) ht .refused
    have hr := countP_setReplyAt (·.reply ≠ .refused) ht .refused
    have hsub := h.submitted_eq
    have hsum := h.sum_eq
    simp only [Counters.sum] at hsum
    simp at hd hr
    exact {
      tasks := htasks
      completed := hcompleted
      queued_eq := by simp only [Counters.takeBack]; omega
      active_eq := h.active_eq
      completed_eq := h.completed_eq
      failed_eq := h.failed_eq
      discarded_eq := by simp only [Counters.takeBack, h.discarded_eq]; simpa using hd.symm
      submitted_eq := by simp only [Counters.takeBack]; simp at hsub ⊢; omega
      sum_eq := by simp only [Counters.takeBack, Counters.sum]; omega }

theorem Balanced.dropped (h : l.Balanced) {t : Task} (hs : Step l (.dropped t) l') :
    l'.Balanced := by
  cases hs with
  | @drop _ rest hw =>
    obtain ⟨htasks, hcompleted, hq⟩ := h.leave hw (Or.inr rfl)
    have ht := h.pending_of_waiting (t := t) (by simp [hw])
    have hd := countP_setReplyAt (·.reply = .dropped) ht .dropped
    have hr := countP_setReplyAt (·.reply ≠ .refused) ht .dropped
    simp at hd hr
    exact {
      tasks := htasks
      completed := hcompleted
      queued_eq := by simp only [Counters.discard]; omega
      active_eq := h.active_eq
      completed_eq := h.completed_eq
      failed_eq := h.failed_eq
      discarded_eq := by simp only [Counters.discard, h.discarded_eq]; simpa using hd.symm
      submitted_eq := by simp only [Counters.discard, h.submitted_eq]; simpa using hr.symm
      sum_eq := by
        rw [Counters.sum_discard (by omega), ← h.sum_eq]
        rfl }

theorem Balanced.started (h : l.Balanced) {t : Task} (hs : Step l (.started t) l') :
    l'.Balanced := by
  cases hs with
  | @start _ rest hw =>
    have hq : l.counters.queued = rest.card + 1 := by rw [h.queued_eq, hw, Multiset.card_cons]
    exact {
      tasks := by
        have hopen := h.tasks
        rw [hw, Multiset.cons_add] at hopen
        rw [Multiset.add_cons]
        exact hopen
      completed := h.completed
      queued_eq := by simp only [Counters.start]; omega
      active_eq := by simp [Counters.start, h.active_eq]
      completed_eq := h.completed_eq
      failed_eq := h.failed_eq
      discarded_eq := h.discarded_eq
      submitted_eq := h.submitted_eq
      sum_eq := by
        rw [Counters.sum_start (by omega), ← h.sum_eq]
        rfl }

theorem Balanced.finished (h : l.Balanced) {t : Task} {o : Outcome} (hs : Step l (.finished t o) l') :
    l'.Balanced := by
  cases hs with
  | @finish _ rest hw =>
    have ht := h.pending_of_running (t := t) (by simp [hw])
    have ha : l.counters.active = rest.card + 1 := by rw [h.active_eq, hw, Multiset.card_cons]
    have hd := countP_setReplyAt (·.reply = .dropped) ht (.answered o)
    have hr := countP_setReplyAt (·.reply ≠ .refused) ht (.answered o)
    simp at hd hr
    have hc := h.completed_eq
    have hf := h.failed_eq
    exact {
      tasks := by
        have hopen := h.tasks
        rw [hw, Multiset.add_cons] at hopen
        exact hopen.leave (by simp)
      completed := h.completed.finish ht o
      queued_eq := by cases o.isSuccess <;> simpa [Counters.finish] using h.queued_eq
      active_eq := by cases o.isSuccess <;> simp [Counters.finish, ha]
      completed_eq := by
        cases ho : o.isSuccess <;> simp [Counters.finish, List.countP_append, ho, hc]
      failed_eq := by
        cases ho : o.isSuccess <;> simp [Counters.finish, List.countP_append, ho, hf]
      discarded_eq := by
        cases o.isSuccess <;> simpa [Counters.finish, h.discarded_eq] using hd.symm
      submitted_eq := by
        cases o.isSuccess <;> simpa [Counters.finish, h.submitted_eq] using hr.symm
      sum_eq := by
        rw [Counters.sum_finish (by omega), ← h.sum_eq]
        cases o.isSuccess <;> rfl }

theorem Balanced.told (h : l.Balanced) {i : Nat} {o : Outcome} (hs : Step l (.told i (.ok o)) l') :
    l'.Balanced := by
  cases hs with
  | @tell _ u _ hi =>
    have hd := countP_setReplyAt (·.reply = .dropped) hi (.fetched o)
    have hr := countP_setReplyAt (·.reply ≠ .refused) hi (.fetched o)
    simp at hd hr
    exact {
      tasks := h.tasks.tell hi
      completed := h.completed.tell hi
      queued_eq := h.queued_eq
      active_eq := h.active_eq
      completed_eq := h.completed_eq
      failed_eq := h.failed_eq
      discarded_eq := by simpa [h.discarded_eq] using hd.symm
      submitted_eq := by simpa [h.submitted_eq] using hr.symm
      sum_eq := h.sum_eq }

theorem Step.balanced (hs : Step l e l') (h : l.Balanced) : l'.Balanced := by
  cases e with
  | submitted u => exact h.submitted hs
  | refused t => exact h.refused hs
  | dropped t => exact h.dropped hs
  | started t => exact h.started hs
  | finished t o => exact h.finished hs
  | told i answer =>
    cases answer with
    | ok o => exact h.told hs
    | error e' =>
      cases hs with
      | tellCancelled => exact h

end Ledger
end BatchJob.Worker
