import BatchJob.Proofs.Job.Accounts
import BatchJob.Proofs.Job.Batched

/-! The report of a job balances, however the job ended: with all units done, by a stop, or by an error. -/
namespace BatchJob.Job
open Worker Queue Control

/-- What a report says of the units of the pool, of which those in the log were counted. -/
structure Balances (failOnError : Bool) (log : List Completed) (q : Pool) (told : Snapshot) : Prop where
  accepted : q.accepted.length = log.length + told.discarded
  executed : q.completions = log ∧ ∃ journal, q.Sound journal ∧ (starts journal).Perm (log.map (·.task))
  once : (log.map (·.task.serial)).Nodup
  succeeded : told.succeeded = itemsOf true log
  failed : told.failed = itemsOf false log
  completed : told.phase = .completed → told.discarded = 0 ∧ (failOnError = true → told.failed = 0)

variable {σ : Type} {w : Surroundings σ} {c : Ready} {raw : List String} {failOnError : Bool}
variable {log : List Completed} {r : Run} {q : Pool} {s : World σ} {t : State}

theorem Settled.balances (h : Settled log q t) {outcome : Except JobError Control.Report}
    {report : Control.Report} (hf : Filed failOnError outcome report t) :
    Balances failOnError log q report.snapshot := by
  obtain ⟨journal, hj⟩ := h.sound
  have hall := h.completions
  refine ⟨?_, ⟨hall, journal, hj, ?_⟩, ?_, hf.succeeded.trans h.booked.succeeded,
    hf.failed.trans h.booked.failed, fun hp => ?_⟩
  · rw [h.idle.length_accepted hj, hall, hf.discarded, h.discarded]
  · rw [← hall]
    exact h.idle.perm_starts hj
  · rw [← hall]
    exact hj.nodup_serials
  · have hfull := hf.completed hp
    exact ⟨hf.discarded.trans hfull.discarded, fun hfail => hf.failed.trans (hfull.faultless hfail)⟩

theorem leg_of_result? {outcome : Except JobError Control.Report} (h : r.result? = some outcome) :
    r.leg = .over outcome := by
  rw [Run.result?] at h
  split at h
  · cases h
    assumption
  · cases h

theorem Accounts.filed (h : Accounts failOnError log r s) {outcome : Except JobError Control.Report}
    (hover : r.result? = some outcome) : (∀ q, s.panel.pool = some q → Settled log q s.state) ∧
      ∃ report, Filed failOnError outcome report s.state := by
  have hleg := leg_of_result? hover
  cases h with
  | done hl h hfiled =>
    rw [hleg] at hl
    cases hl
    exact ⟨h, _, hfiled⟩
  | early hl _ _ | pumping hl _ _ | dismissing hl _ _ | leaving hl _ _ _ | parting hl _ _
  | reporting hl _ _ =>
    rw [hleg] at hl
    cases hl

/-- A whole run counts in one go what its steps count one after the other. -/
theorem Accounts.steps (hw : w.Lawful Undisturbed) (hc : 0 < c.settings.batchSize)
    (hqueue : c.queue.Holds []) {n : Nat}
    (hleft : ∀ m < n, (Run.steps w c m r s).1.deserted w (Run.steps w c m r s).2)
    (hcourse : Course c False raw r s) (h : Accounts c.settings.failOnError log r s) :
    Accounts c.settings.failOnError (log ++ r.counted w c n s) (Run.steps w c n r s).1
      (Run.steps w c n r s).2 := by
  induction n generalizing raw log r s with
  | zero =>
    rw [Run.counted, List.append_nil]
    exact h
  | succ n ih =>
    by_cases hover : r.isOver
    · rw [Run.counted, if_pos hover, List.append_nil, Run.steps_of_isOver hover]
      exact h
    · rw [Run.counted, if_neg hover, Run.steps_succ hover, ← List.append_assoc]
      refine ih (fun m hm => ?_)
        (hcourse.step (hw.mono fun _ _ => Undisturbed.toStirred) hc hqueue fun h => h.elim)
        (h.step hw hcourse (hleft 0 (Nat.succ_pos n)))
      rw [← Run.steps_succ hover]
      exact hleft (m + 1) (Nat.succ_lt_succ hm)

/-- Of a job that was built, in any surroundings that keep to the panel and to the moves of the workers and write
no report: if it ran until it was over, had a pool, and all workers left that in time, then its report balances. -/
theorem balanced_of_run {α β γ : Type} {d : Draft α β γ} {fs : Files} {a : Assembly α β γ}
    (hd : d.build fs = .ok a) (hw : w.Lawful Undisturbed)
    (hs : s.panel = .fresh a.job.settings.threadCount) {n : Nat}
    (hleft : ∀ m < n, (a.job.run w m s).1.deserted w (a.job.run w m s).2)
    {outcome : Except JobError Control.Report} (hover : (a.job.run w n s).1.result? = some outcome)
    (hq : (a.job.run w n s).2.panel.pool = some q) :
    ∃ report, (a.job.run w n s).2.state.report = some report ∧
      (∀ other, outcome = .ok other → other = report) ∧
      Balances a.job.settings.failOnError ((Run.start a.job.queue).counted w a.job n s) q
        report.snapshot := by
  obtain ⟨hbatch, hqueue⟩ := Draft.of_build hd
  have hstart : Accounts a.job.settings.failOnError [] (Run.start a.job.queue) s := by
    refine .early .starting rfl ?_
    rw [World.state, hs]
    rfl
  have hend := hstart.steps hw hbatch hqueue hleft (.start hs fun h => h.elim)
  rw [List.nil_append] at hend
  obtain ⟨hsettled, report, hfiled⟩ := hend.filed hover
  exact ⟨report, hfiled.kept, hfiled.returned, (hsettled q hq).balances hfiled⟩

/-- Every other unit fails. A job that waits for a unit is stopped, and then the workers have time to leave. -/
def Surroundings.stopping : Surroundings (List String) :=
  let work (n : Nat) (s : World (List String)) := s.onPool (·.advanceFor (fun t =>
    some (if t.serial % 2 = 0 then .success .zero else .failure .unit .zero "rejected")) n)
  { Surroundings.listed with
    meanwhile := fun
      | .waiting, s => { s with panel := s.panel.handle .stop }
      | .closing, s => work 100 s
      | _, s => work 1 s }

theorem undisturbed_stopping : Surroundings.stopping.Lawful Undisturbed where
  openSource s := .refl s.panel
  next s := .refl s.panel
  closeSource s := .refl s.panel
  hook _ _ h := by cases h
  closeEndpoints s := .refl s.panel
  keep _ s := .refl s.panel
  meanwhile m s := by
    cases m with
    | waiting => exact undisturbed_handle s.panel .stop
    | _ => exact undisturbed_advanceFor _ _ s.panel

/-- One identifier to a unit, and a unit that fails does not end the job. -/
def Draft.lenient : Draft Unit Unit Unit :=
  (((Draft.start { Settings.default with failOnError := false }).withSource
    ()).withExecutor ()).withPool ⟨Settings.default.endpoints, [], 0, false⟩

def World.fourUnits : World (List String) := ⟨.fresh 1, ["a", "b", "c", "d"]⟩

/-- Of four units one succeeds, one fails after the stop, and two are discarded. -/
theorem balanced_of_stopping :
    ∃ (a : Assembly Unit Unit Unit) (q : Pool) (report : Control.Report),
      Draft.lenient.build .empty = .ok a ∧
      (a.job.run .stopping 50 .fourUnits).2.panel.pool = some q ∧ q.accepted.length = 4 ∧
      (a.job.run .stopping 50 .fourUnits).2.state.report = some report ∧
      (report.snapshot.phase, report.snapshot.succeeded, report.snapshot.failed,
        report.snapshot.discarded) = (.stopped, 1, 1, 2) ∧
      Balances false ((Run.start a.job.queue).counted .stopping a.job 50 .fourUnits) q report.snapshot := by
  obtain ⟨a, ha⟩ : ∃ a, Draft.lenient.build .empty = .ok a := ⟨_, rfl⟩
  have hends : a.job.settings.failOnError = false ∧
      (a.job.run .stopping 50 .fourUnits).1.result?.isSome ∧
      (a.job.run .stopping 50 .fourUnits).2.panel.pool.map (·.accepted.length) = some 4 ∧
      (a.job.run .stopping 50 .fourUnits).2.state.report.map (fun told => (told.snapshot.phase,
        told.snapshot.succeeded, told.snapshot.failed, told.snapshot.discarded)) =
          some (.stopped, 1, 1, 2) := by
    cases ha
    decide +kernel
  obtain ⟨hfail, hover, hpool, htold⟩ := hends
  obtain ⟨outcome, houtcome⟩ := Option.isSome_iff_exists.mp hover
  obtain ⟨q, hq, hfour⟩ := Option.map_eq_some_iff.mp hpool
  obtain ⟨report, hreport, -, hb⟩ := balanced_of_run ha undisturbed_stopping (s := .fourUnits)
    (by cases ha; rfl) (by cases ha; decide +kernel) houtcome hq
  rw [hreport, Option.map_some, Option.some.injEq] at htold
  rw [hfail] at hb
  exact ⟨a, q, report, ha, hq, hfour, hreport, htold, hb⟩

end BatchJob.Job
