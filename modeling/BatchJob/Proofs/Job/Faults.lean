import BatchJob.Proofs.Job.Batched
import BatchJob.Proofs.Job.Events
import BatchJob.Proofs.Job.Working

/-! What a run can fail with, on all its legs. An error that a run once has stays its error; and it comes from outside,
from the source, a hook, a unit, the disk or a thread that cannot be started. -/
namespace BatchJob.Job
open Worker Queue Control

def errorOf {α : Type} : Except JobError α → Option JobError
  | .error e => some e
  | .ok _ => none

/-- The error with which the run is going to end, once that is settled. -/
def Leg.error? : Leg → Option JobError
  | .hooking _ next => next.error?
  | .dismissing result => errorOf result
  | .emptying result => errorOf result
  | .shutting result => errorOf result
  | .crashed result => errorOf result
  | .tallying result => errorOf result
  | .closing result => errorOf result
  | .ending result => errorOf result
  | .reporting result => errorOf result
  | .over result => errorOf result
  | _ => none

/-- A job that can go to work: its batches are not empty, its queue is and has room, and its worker pool can be set
up. -/
structure Ready.Fit (c : Ready) : Prop where
  batchSize : 0 < c.settings.batchSize
  queue : c.queue.Holds []
  roomy : c.queue.Roomy
  workers : ∃ q, Pool.create c.settings.workers = .ok q

/-- A run that was never without a worker to come, whose pool is open while it is fed, which waits for nothing but units
that are out, and whose error came from outside. -/
structure Sane {σ : Type} (r : Run) (s : World σ) : Prop where
  threads : Early r.leg → 0 < s.state.threadCount
  staffed : r.leg = .pumping → Staffed s ∧ r.pump.queue.Roomy
  waits : r.leg = .pumping → r.pump.point = .waiting → 0 < r.pump.inFlight
  outside : ∀ e, r.leg.error? = some e → Outside e

variable {σ : Type} {w : Surroundings σ} {c : Ready} {raw : List String} {r : Run} {s s' : World σ}

theorem Sane.heeding (h : Sane r s) (hcourse : Course c False raw r s) (hs : Heeding s.panel s'.panel) :
    Sane r s' where
  threads hl := hs.manned (h.threads hl)
  staffed hl := ⟨(h.staffed hl).1.heeding (fun _ => hcourse.sound) hs, (h.staffed hl).2⟩
  waits := h.waits
  outside := h.outside

theorem Sane.working (h : Sane r s) (hcourse : Course c False raw r s) (hl : r.leg = .pumping) :
    Working c.settings r.request raw r.pump s := by
  obtain ⟨hstaffed, hroomy⟩ := h.staffed hl
  cases hcourse with
  | pumping _ hfed => exact ⟨hfed, hstaffed, hroomy⟩
  | early hearly _ _ =>
    rw [hl] at hearly
    cases hearly
  | late hlate _ _ =>
    rw [hl] at hlate
    cases hlate
  | last hlast _ _ =>
    rw [hl] at hlast
    cases hlast

theorem sane_ahead (hl : r.leg ≠ .pumping) (he : r.leg.error? = none) (ht : 0 < s.state.threadCount) : Sane r s :=
  ⟨fun _ => ht, fun h => absurd h hl, fun h => absurd h hl, fun e h => by rw [he] at h; cases h⟩

theorem sane_behind (hl : r.leg ≠ .pumping) (hearly : ¬ Early r.leg)
    (ho : ∀ e, r.leg.error? = some e → Outside e) : Sane r s :=
  ⟨fun h => absurd h hearly, fun h => absurd h hl, fun h => absurd h hl, ho⟩

theorem sane_fail {e : JobError} (h : Outside e) : Sane (r.fail e) s := by
  refine sane_behind (by simp [Run.fail]) (fun h => by cases h) fun e' he => ?_
  simp only [Run.fail, Run.leg_go, Leg.error?, errorOf, Option.some.injEq] at he
  exact he ▸ h

theorem Sane.openSource (hw : w.Lawful Heeding) (h : Sane r s) (hl : r.leg = .opening) :
    Sane (r.openSource w c.vars s).1 (r.openSource w c.vars s).2 := by
  have hact := hw.openSource s
  rw [Run.openSource]
  cases ho : w.openSource s with
  | mk answer s' =>
    rw [ho] at hact
    cases answer with
    | error text => exact sane_fail (.source text)
    | ok _ => exact sane_ahead (by simp) rfl (hact.manned (h.threads (hl ▸ .opening)))

theorem Course.ne_pumping (h : Course c False raw r s) {stage : Stage} {next : Leg} (hl : r.leg = .hooking stage next) :
    next ≠ .pumping := by
  rintro rfl
  cases h with
  | pumping hp _ =>
    rw [hl] at hp
    cases hp
  | early hearly _ _ =>
    rw [hl] at hearly
    cases hearly with
    | hooking _ h => cases h
  | late hlate _ _ =>
    rw [hl] at hlate
    cases hlate with
    | hooking _ h => cases h
  | last hlast _ _ =>
    rw [hl] at hlast
    cases hlast

theorem Sane.runHook (hw : w.Lawful Heeding) (hcourse : Course c False raw r s) (h : Sane r s) {stage : Stage}
    {next : Leg} (hl : r.leg = .hooking stage next) :
    Sane (r.runHook w stage next s).1 (r.runHook w stage next s).2 := by
  have hgo : ∀ s' : World σ, Heeding s.panel s'.panel → Sane (r.go next) s' := by
    refine fun s' hs => ⟨fun hearly => ?_, fun hp => absurd hp (hcourse.ne_pumping hl),
      fun hp => absurd hp (hcourse.ne_pumping hl), fun e he => h.outside e (by rw [hl]; exact he)⟩
    have hbefore : Early r.leg := by
      rw [hl]
      exact .hooking stage hearly
    exact hs.manned (h.threads hbefore)
  rw [Run.runHook]
  cases hh : w.hook stage with
  | none => exact hgo s (.refl _)
  | some hook =>
    have hact := hw.hook stage hook hh ⟨stage, s.state.total, r.request⟩ s
    simp only
    cases ha : hook ⟨stage, s.state.total, r.request⟩ s with
    | mk answer s' =>
      rw [ha] at hact
      cases answer with
      | error text => exact sane_fail (.hook stage text)
      | ok _ => exact hgo s' hact

theorem Sane.weigh (h : Sane r s) (hl : r.leg = .weighing) : Sane (r.go (Run.course c.settings s.state.total)) s := by
  have hthreads := h.threads (hl ▸ .weighing)
  rw [Run.course]
  split
  · exact sane_ahead (by simp) rfl hthreads
  · split <;> exact sane_ahead (by simp) rfl hthreads

theorem outside_of_watchProblem? {e : JobError} (h : Run.watchProblem? w c.settings s = some e) : Outside e := by
  rw [Run.watchProblem?] at h
  cases hm : w.threadProblem? "job-monitor" s with
  | some text =>
    rw [hm] at h
    cases h
    exact .monitor text
  | none =>
    rw [hm] at h
    obtain ⟨text, ht, rfl⟩ := Option.map_eq_some_iff.mp h
    simp only [Option.map_none, Option.orElse_eq_orElse, Option.orElse_none] at ht
    split at ht
    · obtain ⟨text', -, rfl⟩ := Option.map_eq_some_iff.mp ht
      exact .commands text'
    · cases ht

theorem Sane.staff (hfit : c.Fit) (hcourse : Course c False raw r s) (h : Sane r s) (hl : r.leg = .staffing) :
    Sane (r.staff w c.settings s).1 (r.staff w c.settings s).2 := by
  obtain ⟨q, hq⟩ := hfit.workers
  have hthreads := h.threads (hl ▸ .staffing)
  have hstart : r.pump = .start c.queue := (hcourse.unstaffed (hl ▸ .staffing)).pump
  rw [Run.staff, hq]
  simp only
  cases hwatch : Run.watchProblem? w c.settings { s with panel := s.panel.attach q } with
  | some e =>
    refine sane_behind (by simp) (fun h => by cases h) fun e' he => ?_
    simp only [Run.leg_go, Leg.error?, errorOf, Option.some.injEq] at he
    exact he ▸ outside_of_watchProblem? hwatch
  | none =>
    refine ⟨fun hearly => (by cases hearly), fun _ => ⟨staffed_attach hthreads hq, ?_⟩, fun _ hp => ?_,
      fun e he => (by cases he)⟩
    · rw [Run.pump_go, hstart]
      exact hfit.roomy
    · rw [Run.pump_go, hstart] at hp
      cases hp

theorem Sane.pumpOn (hw : w.Lawful Heeding) (hfit : c.Fit) (hcourse : Course c False raw r s) (h : Sane r s)
    (hl : r.leg = .pumping) : Sane (r.pumpOn w c.settings s).1 (r.pumpOn w c.settings s).2 := by
  have hworking := h.working hcourse hl
  rw [Run.pumpOn]
  cases hstep : r.pump.step w c.settings r.request s with
  | mk result rest =>
    obtain ⟨p', s'⟩ := rest
    cases result with
    | none =>
      obtain ⟨hnext, hturns⟩ := hworking.step hw hfit.batchSize hstep
      refine ⟨fun hearly => ?_, fun _ => ⟨hnext.staffed, hnext.roomy⟩, fun _ => inFlight_pos_of_waiting hturns,
        fun e he => ?_⟩
      · simp only [hl] at hearly
        cases hearly
      · simp only [hl] at he
        cases he
    | some result =>
      have hhalts := turns_step w c.settings r.request r.pump s
      rw [hstep] at hhalts
      refine sane_behind (by simp) (fun h => by cases h) fun e he => ?_
      cases result with
      | error e' =>
        simp only [Leg.error?, errorOf, Option.some.injEq] at he
        exact he ▸ hworking.outside hw hhalts
      | ok _ => cases he

theorem Sane.end (h : Sane r s) {leg : Leg} (hl : leg ≠ .pumping) (hearly : ¬ Early leg)
    (he : leg.error? = r.leg.error?) : Sane (r.go leg) s' :=
  sane_behind hl hearly fun e hleg => h.outside e (he ▸ hleg)

theorem Sane.step (hw : w.Lawful Heeding) (hfit : c.Fit) (hcourse : Course c False raw r s) (h : Sane r s) :
    Sane (r.step w c s).1 (r.step w c s).2 := by
  have hact := hw.meanwhile r.moment s
  replace h := h.heeding hcourse hact
  replace hcourse := hcourse.stirred hact.toStirred
  rw [Run.step]
  generalize w.meanwhile r.moment s = s at h hcourse ⊢
  -- Up to the pumping each leg can fail in its own way; after it a run keeps the error that it has.
  cases hl : r.leg with
  | starting => exact sane_ahead (by simp) rfl (h.threads (hl ▸ .starting))
  | opening => exact h.openSource hw hl
  | hooking stage next => exact h.runHook hw hcourse hl
  | weighing => exact h.weigh hl
  | launching => exact sane_ahead (by simp) rfl (h.threads (hl ▸ .launching))
  | launched =>
    refine sane_ahead (by simp) rfl ?_
    simp only
    split <;> exact h.threads (hl ▸ .launched)
  | staffing => exact h.staff hfit hcourse hl
  | pumping => exact h.pumpOn hw hfit hcourse hl
  | dismissing result =>
    simp only [Run.dismiss]
    split <;> exact h.end (by simp) (fun h => by cases h) (by rw [hl]; rfl)
  | emptying result =>
    simp only [Run.empty]
    split
    · exact sane_behind (by simp [hl]) (fun hearly => by rw [hl] at hearly; cases hearly) h.outside
    · exact h.end (by simp) (fun h => by cases h) (by rw [hl]; rfl)
  | shutting result =>
    simp only [Run.shut]
    split <;> exact h.end (by simp) (fun h => by cases h) (by rw [hl]; rfl)
  | tallying result =>
    simp only [Run.afterWork]
    split
    · exact h.end (by simp) (fun h => by cases h with | hooking _ h => cases h) (by rw [hl]; rfl)
    · exact h.end (by simp) (fun h => by cases h) (by rw [hl]; rfl)
  | closing result => exact h.end (by simp) (fun h => by cases h) (by rw [hl]; rfl)
  | ending result => exact h.end (by simp) (fun h => by cases h) (by rw [hl]; rfl)
  | reporting result =>
    refine h.end (by simp) (fun h => by cases h) ?_
    rw [hl]
    cases result <;> rfl
  | _ => exact h

theorem sane_start (hs : s.panel = .fresh c.settings.threadCount) (hfit : c.Fit) : Sane (Run.start c.queue) s := by
  refine sane_ahead (by simp [Run.start]) rfl ?_
  obtain ⟨q, hq⟩ := hfit.workers
  obtain ⟨hfine, -⟩ := Pool.create_eq hq
  rw [World.state, hs]
  exact (Worker.Settings.pos_of_problem? hfine).1

section Built
variable {α β γ : Type} {d : Draft α β γ} {fs : Files} {a : Assembly α β γ}

theorem problem?_workers {settings : BatchJob.Settings} (h : settings.problem? fs = none) :
    settings.workers.problem? = none := by
  obtain ⟨hpos, -⟩ := pos_of_settings h
  have hthreads := hpos ("thread_count", settings.threadCount) (by simp)
  have hdepth := hpos ("queue_size", settings.queueSize) (by simp [Settings.positives])
  rw [Worker.Settings.problem?, if_neg (show settings.workers.workers ≠ 0 from hthreads.ne'),
    if_neg (show settings.workers.depth ≠ 0 from hdepth.ne'),
    if_neg (show ¬ settings.workers.stackSize < Worker.Settings.minStackSize by
      show ¬ 2 * 1024 * 1024 < 64 * 1024
      omega)]

theorem Draft.fit_of_build (h : d.build fs = .ok a) : a.job.Fit := by
  obtain ⟨hbatch, hqueue⟩ := Draft.of_build h
  have hfine := Draft.settings_of_build h
  have hmemory := (pos_of_settings hfine).1 ("spill_max_in_memory", a.job.settings.spillMaxInMemory)
    (by simp [Settings.positives])
  refine ⟨hbatch, hqueue, Staging.roomy_build (Draft.queue_of_build h) hmemory, ?_⟩
  rw [Pool.create, problem?_workers hfine]
  exact ⟨_, rfl⟩

theorem Draft.exists_endpointPool (h : d.build fs = .ok a) {endpoints : List Endpoint} (hne : endpoints ≠ []) :
    ∃ pool, Endpoint.Pool.build endpoints a.job.settings.endpoints = .ok pool := by
  have hremove := (pos_of_settings (Draft.settings_of_build h)).2
  have hfine : a.job.settings.endpoints.problem? = none := if_neg hremove
  rw [Endpoint.Pool.build, hfine]
  simp only [if_neg hne]
  exact ⟨_, rfl⟩

end Built

end BatchJob.Job
