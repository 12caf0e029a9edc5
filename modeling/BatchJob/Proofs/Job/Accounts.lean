import BatchJob.Proofs.Job.Counting
import BatchJob.Proofs.Job.Course

/-! The accounts of a whole run. While the worker pool is fed they tell what was received of the completions; from
the moment when all workers have left they tell what became of every unit, and so does the report. -/
namespace BatchJob.Job
open Worker Queue Control

/-- The completions that are received one after the other, but no more than the given number. -/
def Run.left {σ : Type} : Nat → World σ → List Completed
  | 0, _ => []
  | n + 1, s =>
    match s.receive with
    | (none, _) => []
    | (some done, s) => done :: left n s

def Run.counts {σ : Type} (w : Surroundings σ) (r : Run) (s : World σ) : List Completed :=
  let s := w.meanwhile r.moment s
  match r.leg with
  | .pumping => r.pump.counts s
  | .tallying _ => left (unreceived s) s
  | _ => []

def Run.counted {σ : Type} (w : Surroundings σ) (c : Ready) : Nat → Run → World σ → List Completed
  | 0, _, _ => []
  | n + 1, r, s =>
    if r.isOver then []
    else r.counts w s ++ counted w c n (r.step w c s).1 (r.step w c s).2

/-- When the last completions are received, no worker is left in the pool. -/
def Run.deserted {σ : Type} (w : Surroundings σ) (r : Run) (s : World σ) : Bool :=
  match r.leg with
  | .tallying _ => (w.meanwhile r.moment s).panel.pool.all (·.hands.isEmpty)
  | _ => true

/-- The legs on which the workers are sent home. -/
inductive Dismissing (result : Result) : Leg → Prop
  | dismissing : Dismissing result (.dismissing result)
  | emptying : Dismissing result (.emptying result)

/-- The legs on which the backlog is empty, but workers may still be there. -/
inductive Leaving (result : Result) : Leg → Prop
  | shutting : Leaving result (.shutting result)
  | crashed : Leaving result (.crashed result)
  | tallying : Leaving result (.tallying result)

/-- The legs on which nothing is counted any more and the phase is not yet settled. -/
inductive Parting (result : Result) : Leg → Prop
  | hooking (stage : Stage) {next : Leg} (h : Parting result next) : Parting result (.hooking stage next)
  | closing : Parting result (.closing result)
  | ending : Parting result (.ending result)

/-- A pool where nothing is left to do, and all that completed there was counted. -/
structure Settled (log : List Completed) (q : Pool) (t : State) : Prop where
  sound : ∃ journal, q.Sound journal
  idle : q.Idle
  completions : q.completions = log
  booked : Booked log t
  discarded : t.discarded = q.counters.discarded

/-- The job did all that was asked of it. -/
structure Fulfilled (failOnError : Bool) (t : State) : Prop where
  discarded : t.discarded = 0
  faultless : Faultless failOnError t

/-- The report was filed and says what was counted. -/
structure Filed (failOnError : Bool) (outcome : Except JobError Control.Report) (report : Control.Report)
    (t : State) : Prop where
  kept : t.report = some report
  returned : ∀ other, outcome = .ok other → other = report
  succeeded : report.snapshot.succeeded = t.succeeded
  failed : report.snapshot.failed = t.failed
  discarded : report.snapshot.discarded = t.discarded
  completed : report.snapshot.phase = .completed → Fulfilled failOnError t

/-- The accounts of a run that has counted the units in the log. -/
inductive Accounts {σ : Type} (failOnError : Bool) (log : List Completed) (r : Run) (s : World σ) : Prop
  | early (hl : Early r.leg) (hlog : log = []) (hzero : s.state.discarded = 0)
  | pumping (hl : r.leg = .pumping) (h : Counting log s) (hclean : Faultless failOnError s.state)
  | dismissing {result : Result} (hl : Dismissing result r.leg) (h : Counting log s)
    (hclean : result = .ok .completed → Faultless failOnError s.state)
  | leaving {result : Result} (hl : Leaving result r.leg) (h : Counting log s)
    (hclean : result = .ok .completed → Faultless failOnError s.state)
    (hempty : result ≠ .ok .completed → ∀ q, s.panel.pool = some q → q.queue = [])
  | parting {result : Result} (hl : Parting result r.leg)
    (h : ∀ q, s.panel.pool = some q → Settled log q s.state)
    (hfull : result = .ok .completed → Fulfilled failOnError s.state)
  | reporting {result : Result} (hl : r.leg = .reporting result)
    (h : ∀ q, s.panel.pool = some q → Settled log q s.state)
    (hfull : s.state.phase = .completed → Fulfilled failOnError s.state)
  | done {outcome : Except JobError Control.Report} (hl : r.leg = .over outcome)
    (h : ∀ q, s.panel.pool = some q → Settled log q s.state) {report : Control.Report}
    (hfiled : Filed failOnError outcome report s.state)

variable {σ : Type} {w : Surroundings σ} {c : Ready} {raw : List String} {failOnError : Bool}
variable {log : List Completed} {r : Run} {q q' : Pool} {s s' : World σ} {t t' : State} {result : Result}

theorem Faultless.of_eq (h : Faultless failOnError t) (hf : t'.failed = t.failed) :
    Faultless failOnError t' := fun hfail => hf.trans (h hfail)

theorem Fulfilled.of_eq (h : Fulfilled failOnError t) (hd : t'.discarded = t.discarded)
    (hf : t'.failed = t.failed) : Fulfilled failOnError t' :=
  ⟨hd.trans h.discarded, h.faultless.of_eq hf⟩

theorem Booked.of_eq (h : Booked log t) (hs : t'.succeeded = t.succeeded) (hf : t'.failed = t.failed) :
    Booked log t' := ⟨hs.trans h.succeeded, hf.trans h.failed⟩

theorem Settled.of_eq (h : Settled log q t) (hs : t'.succeeded = t.succeeded) (hf : t'.failed = t.failed)
    (hd : t'.discarded = t.discarded) : Settled log q t' :=
  ⟨h.sound, h.idle, h.completions, h.booked.of_eq hs hf, hd.trans h.discarded⟩

theorem Settled.leads {k : List Entry} (h : Settled log q t) (hq : Pool.Leads (Others False) q k q') :
    Settled log q' t := by
  obtain ⟨journal, hj⟩ := h.sound
  obtain ⟨hidle, hc, hn⟩ := h.idle.leads hj (fun _ => internal_of_others) hq
  exact ⟨⟨_, hj.leads hq⟩, hidle, hc.trans h.completions, h.booked, by rw [hn]; exact h.discarded⟩

theorem settled_of_undisturbed (h : ∀ q, s.panel.pool = some q → Settled log q s.state)
    (hs : Undisturbed s.panel s'.panel) : ∀ q, s'.panel.pool = some q → Settled log q s'.state := by
  intro q' hq'
  cases hq : s.panel.pool with
  | none =>
    rw [hs.noPool hq] at hq'
    cases hq'
  | some q =>
    obtain ⟨q₁, k, hq₁, hl⟩ := hs.pool q hq
    rw [hq'] at hq₁
    cases hq₁
    exact ((h q hq).leads hl).of_eq hs.succeeded hs.failed hs.discarded

theorem Filed.undisturbed {outcome : Except JobError Control.Report} {report : Control.Report}
    (h : Filed failOnError outcome report s.state) (hs : Undisturbed s.panel s'.panel) :
    Filed failOnError outcome report s'.state where
  kept := hs.report.trans h.kept
  returned := h.returned
  succeeded := h.succeeded.trans hs.succeeded.symm
  failed := h.failed.trans hs.failed.symm
  discarded := h.discarded.trans hs.discarded.symm
  completed hp := (h.completed hp).of_eq hs.discarded hs.failed

theorem phase_of_undisturbed (hs : Undisturbed s.panel s'.panel) (hp : s'.state.phase = .completed) :
    s.state.phase = .completed := by
  rcases hs.phase with he | ⟨-, hopen⟩
  · exact he.symm.trans hp
  · have hfinal : s'.panel.state.phase = .completed := hp
    rw [hfinal] at hopen
    cases hopen

theorem Accounts.undisturbed (h : Accounts failOnError log r s) (hs : Undisturbed s.panel s'.panel) :
    Accounts failOnError log r s' := by
  have hfault : Faultless failOnError s.state → Faultless failOnError s'.state := (·.of_eq hs.failed)
  have hfulfil : Fulfilled failOnError s.state → Fulfilled failOnError s'.state :=
    (·.of_eq hs.discarded hs.failed)
  cases h with
  | early hl hlog hzero => exact .early hl hlog (hs.discarded.trans hzero)
  | pumping hl h hclean => exact .pumping hl (h.uncounted hs.uncounted) (hfault hclean)
  | dismissing hl h hclean =>
    exact .dismissing hl (h.uncounted hs.uncounted) fun hr => hfault (hclean hr)
  | leaving hl h hclean hempty =>
    refine .leaving hl (h.uncounted hs.uncounted) (fun hr => hfault (hclean hr)) fun hr q' hq' => ?_
    obtain ⟨q, hq, -, -⟩ := h.received
    obtain ⟨q₁, k, hq₁, hl⟩ := hs.pool q hq
    rw [hq'] at hq₁
    cases hq₁
    exact Pool.queue_eq_nil_of_leads (fun _ => internal_of_others) (hempty hr q hq) hl
  | parting hl h hfull =>
    exact .parting hl (settled_of_undisturbed h hs) fun hr => hfulfil (hfull hr)
  | reporting hl h hfull =>
    exact .reporting hl (settled_of_undisturbed h hs) fun hp => hfulfil (hfull (phase_of_undisturbed hs hp))
  | done hl h hfiled => exact .done hl (settled_of_undisturbed h hs) (hfiled.undisturbed hs)

theorem Late.not_early {leg : Leg} (h : Late result leg) : ¬ Early leg := by
  induction h with
  | hooking stage _ ih =>
    intro hearly
    cases hearly with
    | hooking _ hnext => exact ih hnext
  | _ =>
    intro hearly
    cases hearly

theorem Late.unique {leg : Leg} {other : Result} (h : Late result leg) (h' : Late other leg) :
    result = other := by
  induction h with
  | hooking stage _ ih =>
    cases h' with
    | hooking _ hnext => exact ih hnext
  | _ =>
    cases h'
    rfl

theorem Parting.late {leg : Leg} (h : Parting result leg) : Late result leg := by
  induction h with
  | hooking stage _ ih => exact .hooking stage ih
  | closing => exact .closing
  | ending => exact .ending

theorem Course.unstaffed (h : Course c False raw r s) (hl : Early r.leg) :
    Unstaffed False c.queue r.pump s := by
  cases h with
  | early _ _ h => exact h
  | pumping hl' _ =>
    rw [hl'] at hl
    cases hl
  | late hl' _ _ => exact absurd hl hl'.not_early
  | last hl' _ _ =>
    generalize r.leg = leg at hl hl'
    cases hl' <;> cases hl

theorem Course.ended (h : Course c False raw r s) (hl : Late result r.leg) :
    Ended c.settings r.request False raw r.pump.sourceDone result s ∧ s.state.phase.isFinal = false := by
  cases h with
  | early hl' _ _ => exact absurd hl' hl.not_early
  | pumping hl' _ =>
    rw [hl'] at hl
    cases hl
  | late hl' h hphase =>
    obtain rfl := hl.unique hl'
    exact ⟨h, hphase⟩
  | last hl' _ _ =>
    generalize r.leg = leg at hl hl'
    cases hl' <;> cases hl

theorem Unstaffed.booked {queue : Staging} {p : Pump} (h : Unstaffed False queue p s) :
    Booked [] s.state := ⟨h.succeeded, h.failed⟩

theorem Unstaffed.part {queue : Staging} {p : Pump} (h : Unstaffed False queue p s) (hl : Parting result r.leg)
    (hzero : s.state.discarded = 0) : Accounts failOnError [] r s := by
  refine .parting hl (fun q hq => ?_) fun _ => ⟨hzero, fun _ => h.failed⟩
  rw [h.pool] at hq
  cases hq

theorem Unstaffed.open (h : Unstaffed False c.queue r.pump s) (hzero : s.state.discarded = 0) :
    Accounts failOnError [] (r.staff w c.settings s).1 (r.staff w c.settings s).2 := by
  rw [Run.staff]
  cases hq : Pool.create c.settings.workers with
  | error e => exact h.part (.closing) hzero
  | ok q =>
    obtain ⟨-, -, -, hrec, -⟩ := Pool.idle_create hq
    have hcatch : Pool.Leads (Others False) q [] (Panel.catchUp s.state q) := leads_catchUp fun h => h.elim
    obtain ⟨-, hrec'⟩ := Pool.completions_of_leads (fun _ => internal_of_others) hcatch
    rw [hrec] at hrec'
    have hcount : Counting [] { s with panel := s.panel.attach q } := by
      refine ⟨⟨Panel.catchUp s.state q, rfl, ?_, ?_⟩, h.booked, hzero⟩
      · rw [hrec']
        exact Nat.zero_le _
      · rw [hrec', List.take_zero]
    simp only
    split
    · exact .dismissing .dismissing hcount fun hr => by cases hr
    · exact .pumping rfl hcount fun _ => h.failed

theorem Unstaffed.account (hw : w.Lawful Undisturbed) (hl : Early r.leg)
    (h : Unstaffed False c.queue r.pump (w.meanwhile r.moment s))
    (hzero : (w.meanwhile r.moment s).state.discarded = 0) :
    Accounts failOnError [] (r.step w c s).1 (r.step w c s).2 := by
  rw [Run.step]
  generalize w.meanwhile r.moment s = s at h hzero ⊢
  generalize r.leg = leg at hl ⊢
  cases hl with
  | starting => exact .early .opening rfl hzero
  | opening =>
    have hact := hw.openSource s
    simp only [Run.openSource]
    cases ha : w.openSource s with
    | mk answer s' =>
      rw [ha] at hact
      cases answer with
      | error text => exact (h.stirred hact.toStirred).part .closing (hact.discarded.trans hzero)
      | ok u => exact .early (.hooking .init .weighing) rfl (hact.discarded.trans hzero)
  | @hooking stage next hnext =>
    obtain ⟨s', hs, heq | ⟨e, heq⟩⟩ := runHook_cases hw .refl stage next r s
    · simp only [heq]
      exact .early hnext rfl (hs.discarded.trans hzero)
    · simp only [heq]
      exact (h.stirred hs.toStirred).part .closing (hs.discarded.trans hzero)
  | weighing =>
    simp only [Run.course]
    split
    · exact .early (.hooking .preBatch .launching) rfl hzero
    · split
      · exact h.part (.hooking .preBatch (.hooking .postBatch .closing)) hzero
      · exact h.part .closing hzero
  | launching => exact .early .launched rfl hzero
  | launched =>
    simp only
    split <;> exact .early .staffing rfl hzero
  | staffing => exact h.open hzero

theorem Counting.onPool {f : Pool → Pool} (h : Counting log s)
    (hf : ∀ q, (f q).completions = q.completions ∧ (f q).received = q.received) :
    Counting log (s.onPool f) := by
  refine h.uncounted ⟨rfl, rfl, rfl, rfl, fun q hq => ⟨f q, ?_, ?_, (hf q).2⟩⟩
  · simp [World.onPool, Panel.onPool, hq]
  · exact (hf q).1 ▸ List.prefix_refl _

theorem Counting.dismiss (h : Counting log s)
    (hclean : result = .ok .completed → Faultless failOnError s.state) :
    Accounts failOnError log (r.dismiss result s).1 (r.dismiss result s).2 := by
  unfold Run.dismiss
  split
  · exact .leaving .shutting h hclean fun hr => absurd rfl hr
  · exact .dismissing .emptying (h.onPool fun q => ⟨rfl, rfl⟩) hclean

theorem Counting.empty (h : Counting log s) (hl : r.leg = .emptying result)
    (hclean : result = .ok .completed → Faultless failOnError s.state)
    (hblocked : ∀ q, s.panel.pool = some q → q.blocked = []) :
    Accounts failOnError log (r.empty result s).1 (r.empty result s).2 := by
  rw [Run.empty]
  cases hd : s.drop? with
  | none =>
    refine .leaving .shutting h hclean fun _ q hq => ?_
    rw [World.drop?, hq, Option.bind_some, Option.map_eq_none_iff] at hd
    have hbacklog : q.backlog = [] := by
      rw [Pool.drop?] at hd
      split at hd
      · assumption
      · cases hd
    rw [Pool.queue, hblocked q hq, hbacklog, List.append_nil]
  | some s' =>
    obtain ⟨q, q', hq, hdrop, rfl⟩ := drop?_eq_some hd
    have hk : Pool.Keeps .drop q q' := Pool.keeps_drop? hdrop
    exact .dismissing (hl ▸ .emptying)
      (h.uncounted (uncounted_setPool hq hk.completions (hk.received fun he => by cases he))) hclean

theorem left_eq {n : Nat} (hq : s.panel.pool = some q) (hn : n ≤ q.completions.length - q.received) :
    Run.left n s = (q.completions.drop q.received).take n := by
  induction n generalizing s q with
  | zero => rfl
  | succ n ih =>
    have hlt : q.received < q.completions.length := by omega
    have hdone : q.completions[q.received]? = some q.completions[q.received] :=
      List.getElem?_eq_getElem hlt
    rw [Run.left, receive_eq hq, Pool.receive_some hdone, List.drop_eq_getElem_cons hlt,
      List.take_succ_cons]
    exact congrArg _ (ih (pool_setPool hq _) (by simp only; omega))

theorem left_unreceived (hq : s.panel.pool = some q) :
    Run.left (Run.unreceived s) s = q.completions.drop q.received := by
  have hn : Run.unreceived s = q.completions.length - q.received := by
    rw [Run.unreceived, hq, Option.map_some, Option.getD_some]
  rw [hn, left_eq hq (Nat.le_refl _)]
  exact List.take_of_length_le (by simp)

theorem Booked.tallies (h : Booked log t) (rest : List Completed) :
    Booked (log ++ rest) (tallies rest t) := by
  induction rest generalizing log t with
  | nil =>
    rw [List.append_nil]
    exact h
  | cons done rest ih =>
    rw [List.append_cons]
    exact ih (h.tally done)

theorem Booked.noted (h : Booked log t) (result : Result) (q : Pool) : Booked log (noted result q t) := by
  unfold Job.noted
  split <;> exact h.of_eq rfl rfl

theorem discarded_noted (result : Result) (hr : result = .ok .completed → t.discarded = q.counters.discarded) :
    (noted result q t).discarded = q.counters.discarded := by
  unfold noted
  split
  · exact hr rfl
  · rfl

/-- After a completed run everything was received; after any other nothing is queued, and all workers have
left. So the pool is idle in both cases, though for different reasons. -/
theorem Counting.settle (h : Counting log s) {request : Work.Request} {done : Bool}
    (hended : Ended c.settings request False raw done result s)
    (hclean : result = .ok .completed → Faultless failOnError s.state)
    (hempty : result ≠ .ok .completed → ∀ q, s.panel.pool = some q → q.queue = [])
    (hleft : ∀ q, s.panel.pool = some q → q.hands = []) :
    (∀ q, (Run.tallyAll result s).panel.pool = some q →
        Settled (log ++ Run.left (Run.unreceived s) s) q (Run.tallyAll result s).state) ∧
      (result = .ok .completed → Fulfilled failOnError (Run.tallyAll result s).state) := by
  obtain ⟨q, hq, -, hlog⟩ := h.received
  obtain ⟨journal, hj⟩ := (hended.pool q hq).orderly
  have hpanel := tallyAll_eq hq result
  have hstate : (Run.tallyAll result s).state =
      tallies (q.completions.drop q.received) (noted result q s.state) := by rw [World.state, hpanel]
  have hwhole : result = .ok .completed →
      q.Idle ∧ q.counters.discarded = 0 ∧ q.completions.drop q.received = [] := by
    intro hr
    rcases hended.whole hr with ⟨-, hnone⟩ | ⟨-, q₁, hq₁, hw, -⟩
    · rw [hq] at hnone
      cases hnone
    · rw [hq] at hq₁
      cases hq₁
      obtain ⟨hidle, hzero⟩ := hj.sound.idle_of_whole hw.completions
      exact ⟨hidle, hzero, List.drop_eq_nil_of_le (by rw [hw.completions, hw.received])⟩
  have hidle : q.Idle := by
    by_cases hr : result = .ok .completed
    · exact (hwhole hr).1
    · exact Pool.idle_of_deserted (hleft q hq) (hempty hr q hq)
  refine ⟨fun q' hq' => ?_, fun hr => ?_⟩
  · rw [hpanel] at hq'
    cases hq'
    rw [left_unreceived hq, hstate]
    refine ⟨⟨journal, (hj.receiveMore _).sound⟩, ⟨hidle.waiting, hidle.running⟩, ?_,
      (h.booked.noted result q).tallies _, ?_⟩
    · rw [hlog, List.take_append_drop]
    · rw [apply_tallies (f := State.discarded) discarded_tally]
      exact discarded_noted result fun hr => h.discarded.trans (hwhole hr).2.1.symm
  · obtain ⟨-, -, hrest⟩ := hwhole hr
    rw [hstate, hrest]
    subst hr
    exact ⟨h.discarded, hclean rfl⟩

theorem parting_afterWork (result : Result) : Parting result (Run.afterWork result) := by
  unfold Run.afterWork
  split
  · exact .hooking .postBatch .closing
  · exact .closing

theorem phaseOf_eq_completed (h : Run.phaseOf result = .completed) : result = .ok .completed := by
  rcases result with _ | (_ | _)
  · cases h
  · rfl
  · cases h

theorem filed_report (w : Surroundings σ) (result : Result) (s : World σ)
    (h : s.state.phase = .completed → Fulfilled failOnError s.state) :
    Filed failOnError (result.map fun _ => Run.report w result s) (Run.report w result s)
      { s.state with report := some (Run.report w result s) } where
  kept := rfl
  returned other ho := by
    cases result with
    | error e => cases ho
    | ok ending =>
      cases ho
      rfl
  succeeded := rfl
  failed := rfl
  discarded := rfl
  completed hp := (h hp).of_eq rfl rfl

theorem Counting.pump (hw : w.Lawful Undisturbed) (hl : r.leg = .pumping) (h : Counting log s)
    (hclean : Faultless c.settings.failOnError s.state) :
    Accounts c.settings.failOnError (log ++ r.pump.counts s) (r.pumpOn w c.settings s).1
      (r.pumpOn w c.settings s).2 := by
  have hcounts : Counts c.settings s (r.pump.counts s) (r.pump.step w c.settings r.request s) :=
    Pump.counts_step hw r.pump s
  obtain ⟨hcount, hfault⟩ := h.step hcounts
  rw [Run.pumpOn]
  cases hstep : r.pump.step w c.settings r.request s with
  | mk ended rest =>
    obtain ⟨p, s'⟩ := rest
    rw [hstep] at hcount hfault
    cases ended with
    | none => exact .pumping hl hcount (hfault hclean fun _ he => by cases he)
    | some result =>
      refine .dismissing .dismissing hcount fun hr => hfault hclean fun e he => ?_
      rw [hr] at he
      cases he

theorem Accounts.part (hw : w.Lawful Undisturbed) (hl : Parting result r.leg)
    (hphase : (w.meanwhile r.moment s).state.phase.isFinal = false)
    (h : ∀ q, (w.meanwhile r.moment s).panel.pool = some q →
      Settled log q (w.meanwhile r.moment s).state)
    (hfull : result = .ok .completed → Fulfilled failOnError (w.meanwhile r.moment s).state) :
    Accounts failOnError log (r.step w c s).1 (r.step w c s).2 := by
  rw [Run.step]
  generalize w.meanwhile r.moment s = s at hphase h hfull ⊢
  generalize r.leg = leg at hl ⊢
  cases hl with
  | @hooking stage next hnext =>
    obtain ⟨s', hs, heq | ⟨e, heq⟩⟩ := runHook_cases hw .refl stage next r s
    · simp only [heq]
      exact .parting hnext (settled_of_undisturbed h hs)
        fun hr => (hfull hr).of_eq hs.discarded hs.failed
    · simp only [heq]
      exact .parting .closing (settled_of_undisturbed h hs) fun he => by cases he
  | closing =>
    have hs := lawful_close hw (fun _ _ _ => Undisturbed.trans) r.pump.queue s
    exact .parting .ending (settled_of_undisturbed h hs)
      fun hr => (hfull hr).of_eq hs.discarded hs.failed
  | ending =>
    have hsettled := phase_moved hphase (Run.isFinal_phaseOf result)
    refine .reporting rfl (fun q hq => (h q hq).of_eq rfl rfl rfl) fun hp => ?_
    exact (hfull (phaseOf_eq_completed (hsettled.symm.trans hp))).of_eq rfl rfl

/-- Others act, and then the run makes its step and counts what this brings. -/
theorem Accounts.step (hw : w.Lawful Undisturbed) (hcourse : Course c False raw r s)
    (hdeserted : r.deserted w s) (h : Accounts c.settings.failOnError log r s) :
    Accounts c.settings.failOnError (log ++ r.counts w s) (r.step w c s).1 (r.step w c s).2 := by
  have hact := hw.meanwhile r.moment s
  -- The course of the run says what the accounts do not: that nobody waits for room any more, and that a
  -- completed run has received everything.
  have hcourse' := hcourse.stirred hact.toStirred
  cases h.undisturbed hact with
  | early hl hlog hzero =>
    have hcounts : r.counts w s = [] := by
      rw [Run.counts]
      generalize r.leg = leg at hl
      cases hl <;> rfl
    rw [hcounts, hlog, List.append_nil]
    exact (hcourse'.unstaffed hl).account hw hl hzero
  | pumping hl h hclean =>
    simp only [Run.counts, Run.step, hl]
    exact h.pump hw hl hclean
  | @dismissing result hl h hclean =>
    generalize hleg : r.leg = leg at hl
    cases hl with
    | dismissing =>
      simp only [Run.counts, Run.step, hleg, List.append_nil]
      exact h.dismiss hclean
    | emptying =>
      have hlate : Late result r.leg := hleg ▸ .emptying
      obtain ⟨hended, -⟩ := hcourse'.ended hlate
      simp only [Run.counts, Run.step, hleg, List.append_nil]
      exact h.empty hleg hclean hended.blocked
  | @leaving result hl h hclean hempty =>
    generalize hleg : r.leg = leg at hl
    cases hl with
    | shutting =>
      simp only [Run.counts, Run.step, hleg, List.append_nil]
      have hclosed := h.onPool fun q => (q.close_keeps).2
      have hkept : result ≠ .ok .completed →
          ∀ q, ((w.meanwhile r.moment s).onPool .close).panel.pool = some q → q.queue = [] := by
        intro hr q' hq'
        obtain ⟨q, hq, rfl⟩ := Option.map_eq_some_iff.mp hq'
        rw [(q.close_keeps).1]
        exact hempty hr q hq
      simp only [Run.shut]
      split
      · exact .leaving .tallying hclosed hclean hkept
      · exact .leaving .crashed hclosed hclean hkept
    | crashed =>
      simp only [Run.counts, Run.step, hleg, List.append_nil]
      exact .leaving (hleg ▸ .crashed) h hclean hempty
    | tallying =>
      have hlate : Late result r.leg := hleg ▸ .tallying
      obtain ⟨hended, -⟩ := hcourse'.ended hlate
      obtain ⟨hsettled, hfull⟩ := h.settle hended hclean hempty fun q hq => by
        simpa [Run.deserted, hleg, hq] using hdeserted
      simp only [Run.counts, Run.step, hleg]
      exact .parting (parting_afterWork result) hsettled hfull
  | @parting result hl h hfull =>
    have hcounts : r.counts w s = [] := by
      rw [Run.counts]
      generalize r.leg = leg at hl
      cases hl <;> rfl
    rw [hcounts, List.append_nil]
    exact Accounts.part hw hl (hcourse'.ended hl.late).2 h hfull
  | @reporting result hl h hfull =>
    simp only [Run.counts, Run.step, Run.file, hl, List.append_nil]
    exact .done rfl (fun q hq => (h q hq).of_eq rfl rfl rfl) (filed_report w result _ hfull)
  | done hl h hfiled =>
    simp only [Run.counts, Run.step, hl, List.append_nil]
    exact .done hl h hfiled

end BatchJob.Job
