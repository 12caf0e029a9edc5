import BatchJob.Proofs.Job.Endless
import BatchJob.Proofs.Job.Faults

/-! How far a run comes. Whatever its limits are and whoever acts, no round of the pumping is idle for want of
anything to do, and with a source that ends the pumping ends too, once and for all, if it is served or stopped. What it
cannot end with is a fault of its own. -/
namespace BatchJob.Job
open Worker Queue

/-- Errors by which a job would have only itself to blame: an entry or a queue that it should not have offered or
filled, a pool that let go of it, or settings that its pools do not take. -/
inductive Inside : JobError → Prop
  | empty : Inside (.queue .emptyEntry)
  | overfull : Inside (.internal "staging queue refused an identifier")
  | closed : Inside (.internal "worker pool completion channel closed")
  | settings (text : String) : Inside (.configuration text)
  | pool (e : PoolError) : Inside (.pool e)

/-- The pumping is behind. -/
inductive Past : Leg → Prop
  | late {result : Result} {leg : Leg} (h : Late result leg) : Past leg
  | last {leg : Leg} (h : Last leg) : Past leg

/-- Nobody has to be served any more: the pumping is over, or it is going to hear of a stop. -/
def Ready.isReleased {σ : Type} (w : Surroundings σ) (c : Ready) (s : World σ) (n : Nat) : Prop :=
  (c.run w n s).1.leg ≠ .pumping ∨ Stopped (c.run w n s).1.pump (c.run w n s).2

/-- The threads that are asked for and the units in flight beside them can be counted in a machine word. -/
def Ready.Countable {σ : Type} (w : Surroundings σ) (c : Ready) (s : World σ) : Prop :=
  ∀ n, (c.run w n s).1.leg = .pumping →
    ((c.run w n s).1.pump.meets w (c.run w n s).2).state.threadCount + c.settings.inFlightLimit < Text.limit64

/-- What holds of all runs of a job in these surroundings. Between one begin of a round and the next something is
gained; of a source that ends, a run that is served leaves the pumping for good, and so does one that is stopped while
it pumps, however it is served. If it fails, others are to blame. -/
structure Progress {σ : Type} (w : Surroundings σ) (c : Ready) (s : World σ) : Prop where
  workers : ∃ q, Pool.create c.settings.workers = .ok q
  endpoints : ∀ endpoints ≠ [], ∃ pool, Endpoint.Pool.build endpoints c.settings.endpoints = .ok pool
  rounds : ∀ n m, n < m → (c.run w n s).1.leg = .pumping → (c.run w n s).1.pump.point = .collecting →
    (c.run w m s).1.leg = .pumping → (c.run w m s).1.pump.point = .collecting →
    ∃ k, n ≤ k ∧ k < m ∧ (c.run w k s).1.leg = .pumping ∧
      Gains w c.settings (c.run w k s).1.request (c.run w k s).1.pump
        ((c.run w k s).1.pump.meets w (c.run w k s).2)
  waits : ∀ n, (c.run w n s).1.leg = .pumping → (c.run w n s).1.pump.point = .waiting →
    ∃ q serial, ((c.run w n s).1.pump.meets w (c.run w n s).2).panel.pool = some q ∧ q.Outstanding serial
  leaves : ∀ left, w.RunsDry left → Served (c.isReleased w s) (fun n => (c.run w n s).2) →
    ∃ m, ∀ n, m ≤ n → (c.run w n s).1.leg ≠ .pumping
  stops : ∀ left, w.RunsDry left → ∀ n, (c.run w n s).1.leg = .pumping →
    Stopped (c.run w n s).1.pump (c.run w n s).2 → ∃ m, ∀ n, m ≤ n → (c.run w n s).1.leg ≠ .pumping
  refused : ∀ n result, (c.run w n s).1.leg = .pumping → (c.run w (n + 1) s).1.leg = .dismissing result →
    (c.run w n s).1.pump.point.waitsFor?.isSome ∨ (c.run w (n + 1) s).1.pump.units ≠ (c.run w n s).1.pump.units →
    result = .ok .stopped
  faults : ∀ n e, (c.run w n s).1.result? = some (.error e) → Outside e ∧ ¬ Inside e

variable {σ : Type} {w : Surroundings σ} {c : Ready} {raw : List String} {r : Run} {s s' : World σ}
variable {n m : Nat} {left : σ → Nat}

theorem Run.steps_snoc (w : Surroundings σ) (c : Ready) (n : Nat) (r : Run) (s : World σ) :
    Run.steps w c (n + 1) r s = if (Run.steps w c n r s).1.isOver then Run.steps w c n r s
      else (Run.steps w c n r s).1.step w c (Run.steps w c n r s).2 := by
  induction n generalizing r s with
  | zero => rfl
  | succ n ih =>
    by_cases hover : r.isOver
    · simp [Run.steps_of_isOver hover, hover]
    · rw [Run.steps_succ hover, Run.steps_succ hover]
      exact ih _ _

theorem Ready.run_succ (w : Surroundings σ) (c : Ready) (n : Nat) (s : World σ) :
    c.run w (n + 1) s = if (c.run w n s).1.isOver then c.run w n s
      else (c.run w n s).1.step w c (c.run w n s).2 := Run.steps_snoc w c n (.start c.queue) s

theorem Ready.run_of_over (h : (c.run w n s).1.isOver) (hnm : n ≤ m) : c.run w m s = c.run w n s := by
  induction m, hnm using Nat.le_induction with
  | base => rfl
  | succ m _ ih => rw [Ready.run_succ, ih, if_pos h]

theorem ne_pumping_of_over (h : r.isOver) : r.leg ≠ .pumping := by
  intro hl
  simp [Run.isOver, hl] at h

theorem served_of_over (h : (c.run w n s).1.isOver) : Served (c.isReleased w s) fun n => (c.run w n s).2 := by
  have hreleased : ∀ m, c.isReleased w s (max n m) := by
    intro m
    rw [Ready.isReleased, Ready.run_of_over h (Nat.le_max_left n m)]
    exact Or.inl (ne_pumping_of_over h)
  exact ⟨fun m _ _ _ _ => ⟨_, Nat.le_max_right n m, Or.inl (hreleased m)⟩,
    fun m _ _ _ _ _ => ⟨_, Nat.le_max_right n m, Or.inl (hreleased m)⟩⟩

theorem Past.step (h : Past r.leg) : Past (r.step w c s).1.leg := by
  rw [Run.step]
  generalize w.meanwhile r.moment s = s
  generalize hleg : r.leg = leg at h ⊢
  cases h with
  | @late result leg hl =>
    cases hl with
    | dismissing =>
      simp only [Run.dismiss]
      split
      · exact .late .shutting
      · exact .late .emptying
    | emptying =>
      simp only [Run.empty]
      split
      · rw [hleg]
        exact .late .emptying
      · exact .late .shutting
    | shutting =>
      simp only [Run.shut]
      split
      · exact .late .tallying
      · exact .late .crashed
    | crashed =>
      rw [hleg]
      exact .late .crashed
    | tallying =>
      simp only [Run.leg_go]
      unfold Run.afterWork
      split
      · exact .late (.hooking .postBatch .closing)
      · exact .late .closing
    | @hooking stage next hnext =>
      simp only [Run.runHook]
      split
      · exact .late hnext
      · split
        · exact .late .closing
        · exact .late hnext
    | closing => exact .late .ending
    | ending => exact .last (.reporting result)
  | last hl =>
    cases hl with
    | reporting result => exact .last (.done _)
    | done report =>
      rw [hleg]
      exact .last (.done report)

theorem Past.ne_pumping {leg : Leg} (h : Past leg) : leg ≠ .pumping := by
  rintro rfl
  cases h with
  | late hl => cases hl
  | last hl => cases hl

theorem Past.run (h : Past (c.run w n s).1.leg) (hnm : n ≤ m) : Past (c.run w m s).1.leg := by
  induction m, hnm using Nat.le_induction with
  | base => exact h
  | succ m _ ih =>
    rw [Ready.run_succ]
    split
    · exact ih
    · exact ih.step

theorem Run.step_of_pumping (hl : r.leg = .pumping) : r.step w c s = r.pumpOn w c.settings (r.pump.meets w s) := by
  simp [Run.step, Run.moment, Pump.meets, hl]

theorem Ready.run_succ_of_pumping (hl : (c.run w n s).1.leg = .pumping) :
    c.run w (n + 1) s = (c.run w n s).1.pumpOn w c.settings ((c.run w n s).1.pump.meets w (c.run w n s).2) := by
  have hnot : ¬ (c.run w n s).1.isOver := fun hover => ne_pumping_of_over hover hl
  rw [Ready.run_succ, if_neg hnot, Run.step_of_pumping hl]

theorem pumping_or_past (hl : (c.run w n s).1.leg = .pumping) :
    (c.run w (n + 1) s).1.leg = .pumping ∨ Past (c.run w (n + 1) s).1.leg := by
  rw [Ready.run_succ_of_pumping hl, Run.pumpOn]
  split
  · exact Or.inl hl
  · exact Or.inr (.late .dismissing)

theorem pumping_of_le (hl : (c.run w n s).1.leg = .pumping) (hl' : (c.run w m s).1.leg = .pumping) {k : Nat}
    (hnk : n ≤ k) : k ≤ m → (c.run w k s).1.leg = .pumping := by
  induction k, hnk using Nat.le_induction with
  | base => exact fun _ => hl
  | succ k _ ih =>
    intro hkm
    exact (pumping_or_past (ih (Nat.le_of_succ_le hkm))).resolve_right fun hpast =>
      (hpast.run hkm).ne_pumping hl'

/-- What the run is about in a step that does not end the pumping. -/
structure Pumps (w : Surroundings σ) (c : Ready) (n : Nat) (s : World σ) : Prop where
  step : (c.run w n s).1.pump.step w c.settings (c.run w n s).1.request
    ((c.run w n s).1.pump.meets w (c.run w n s).2) = (none, (c.run w (n + 1) s).1.pump, (c.run w (n + 1) s).2)
  request : (c.run w (n + 1) s).1.request = (c.run w n s).1.request

theorem pumps_of_pumping (hl : (c.run w n s).1.leg = .pumping) (hl' : (c.run w (n + 1) s).1.leg = .pumping) :
    Pumps w c n s := by
  have hrun := Ready.run_succ_of_pumping hl
  rw [Run.pumpOn] at hrun
  split at hrun
  · rename_i p' s' hstep
    exact ⟨by rw [hrun]; exact hstep, by rw [hrun]⟩
  · rw [hrun] at hl'
    cases hl'

/-- What came from the source so far, by the record of the run. -/
def Ready.yielded (w : Surroundings σ) (c : Ready) (n : Nat) (s : World σ) : List String :=
  pulled (c.run w.recorded n (s.noting [])).2.log

theorem sane_run (hw : w.Lawful Heeding) (hfit : c.Fit) (hs : s.panel = .fresh c.settings.threadCount) (n : Nat) :
    Course c False (c.yielded w n s) (c.run w n s).1 (c.run w n s).2 ∧ Sane (c.run w n s).1 (c.run w n s).2 := by
  have hlawful : w.Lawful (Stirred False) := hw.mono fun _ _ h => h.toStirred
  have hstart : Course c False (pulled []) (Run.start c.queue) s := .start hs fun h => h.elim
  have hcourse : ∀ n, Course c False (c.yielded w n s) (c.run w n s).1 (c.run w n s).2 := fun n =>
    hstart.steps hlawful hfit.batchSize hfit.queue (fun h => h.elim) n
  refine ⟨hcourse n, ?_⟩
  induction n with
  | zero => exact sane_start hs hfit
  | succ n ih =>
    rw [Ready.run_succ]
    split
    · exact ih
    · exact ih.step hw hfit (hcourse n)

theorem working_run (hw : w.Lawful Heeding) (hfit : c.Fit) (hs : s.panel = .fresh c.settings.threadCount)
    (hl : (c.run w n s).1.leg = .pumping) :
    Working c.settings (c.run w n s).1.request (c.yielded w n s) (c.run w n s).1.pump (c.run w n s).2 := by
  obtain ⟨hcourse, hsane⟩ := sane_run hw hfit hs n
  exact hsane.working hcourse hl

/-- A round in which nothing was gained would be silent from its begin to the begin of the next. -/
theorem exists_gains (hw : w.Lawful Heeding) (hfit : c.Fit) (hs : s.panel = .fresh c.settings.threadCount)
    (hroom : c.Countable w s) (hnm : n < m)
    (hl : (c.run w n s).1.leg = .pumping) (hp : (c.run w n s).1.pump.point = .collecting)
    (hl' : (c.run w m s).1.leg = .pumping) (hp' : (c.run w m s).1.pump.point = .collecting) :
    ∃ k, n ≤ k ∧ k < m ∧ (c.run w k s).1.leg = .pumping ∧
      Gains w c.settings (c.run w k s).1.request (c.run w k s).1.pump
        ((c.run w k s).1.pump.meets w (c.run w k s).2) := by
  by_contra hnone
  have hnext : ∀ k, n ≤ k → k < m → (c.run w k s).1.pump.point = .collecting ∨ (c.run w k s).1.pump.Silent →
      (c.run w (k + 1) s).1.pump.Silent := by
    intro k hnk hkm hk
    have hlk := pumping_of_le hl hl' hnk hkm.le
    have hpumps := pumps_of_pumping hlk (pumping_of_le hl hl' (by omega) hkm)
    have hworking := (working_run hw hfit hs hlk).meets hw
    have hround := hworking.round hw hfit.batchSize (hroom k hlk) hk hpumps.step
    exact hround.resolve_left fun hg => hnone ⟨k, hnk, hkm, hlk, hg⟩
  have hsilent : ∀ k, n + 1 ≤ k → k ≤ m → (c.run w k s).1.pump.Silent := by
    intro k hnk
    induction k, hnk using Nat.le_induction with
    | base => exact fun hm => hnext n le_rfl hm (Or.inl hp)
    | succ k hnk ih => exact fun hm => hnext k (by omega) hm (Or.inr (ih (by omega)))
  have hlast := hsilent m hnm le_rfl
  simp [Pump.Silent, hp'] at hlast

theorem exists_outstanding_of_waiting (hw : w.Lawful Heeding) (hfit : c.Fit)
    (hs : s.panel = .fresh c.settings.threadCount) (hl : (c.run w n s).1.leg = .pumping)
    (hp : (c.run w n s).1.pump.point = .waiting) :
    ∃ q serial, ((c.run w n s).1.pump.meets w (c.run w n s).2).panel.pool = some q ∧ q.Outstanding serial := by
  have hworking := (working_run hw hfit hs hl).meets hw
  have hin := (sane_run hw hfit hs n).2.waits hl hp
  exact hworking.fed.exists_outstanding (by rw [hp]; rfl) hin

/-- A run that pumped on and on would be a machine without an end. -/
theorem endless_of_pumping (hw : w.Lawful Heeding) (hfit : c.Fit) (hs : s.panel = .fresh c.settings.threadCount)
    (hroom : c.Countable w s) (hon : ∀ k, n ≤ k → (c.run w k s).1.leg = .pumping) :
    Endless w c.settings (c.run w n s).1.request (fun i => c.yielded w (n + i) s)
      (fun i => (c.run w (n + i) s).1.pump) fun i => (c.run w (n + i) s).2 := by
  have hpumps : ∀ i, Pumps w c (n + i) s := fun i =>
    pumps_of_pumping (hon _ (Nat.le_add_right n i)) (hon _ (Nat.le_add_right n (i + 1)))
  have hrequest : ∀ i, (c.run w (n + i) s).1.request = (c.run w n s).1.request := by
    intro i
    induction i with
    | zero => rfl
    | succ i ih => exact (hpumps i).request.trans ih
  refine ⟨fun i => ?_, fun i => ?_, fun i => hroom _ (hon _ (Nat.le_add_right n i))⟩
  · rw [← hrequest i]
    exact working_run hw hfit hs (hon _ (Nat.le_add_right n i))
  · rw [← hrequest i]
    exact (hpumps i).step

theorem exists_forall_pumping (hnever : ¬ ∃ m, ∀ n, m ≤ n → (c.run w n s).1.leg ≠ .pumping) (n : Nat) :
    ∃ m, n ≤ m ∧ ∀ k, m ≤ k → (c.run w k s).1.leg = .pumping := by
  have hagain : ∀ m, ∃ k, m ≤ k ∧ (c.run w k s).1.leg = .pumping := by
    intro m
    by_contra hnone
    exact hnever ⟨m, fun k hmk hl => hnone ⟨k, hmk, hl⟩⟩
  obtain ⟨m, hnm, hl⟩ := hagain n
  refine ⟨m, hnm, fun k hmk => ?_⟩
  obtain ⟨i, hki, hl'⟩ := hagain k
  exact pumping_of_le hl hl' hmk hki

theorem exists_past_of_served (hw : w.Lawful Heeding) (hfit : c.Fit) (hs : s.panel = .fresh c.settings.threadCount)
    (hroom : c.Countable w s) (hdry : w.RunsDry left)
    (hserved : Served (c.isReleased w s) fun n => (c.run w n s).2) :
    ∃ m, ∀ n, m ≤ n → (c.run w n s).1.leg ≠ .pumping := by
  by_contra hnever
  obtain ⟨n, -, hon⟩ := exists_forall_pumping hnever 0
  have hendless := endless_of_pumping hw hfit hs hroom hon
  refine hendless.absurd_of_served hw hfit.batchSize hdry (hserved.shift fun i hreleased => ?_)
  exact hreleased.resolve_left fun hne => hne (hon _ (Nat.le_add_right n i))

theorem exists_past_of_stopped (hw : w.Lawful Heeding) (hfit : c.Fit) (hs : s.panel = .fresh c.settings.threadCount)
    (hroom : c.Countable w s) (hdry : w.RunsDry left) (hl : (c.run w n s).1.leg = .pumping)
    (hstop : Stopped (c.run w n s).1.pump (c.run w n s).2) :
    ∃ m, ∀ n, m ≤ n → (c.run w n s).1.leg ≠ .pumping := by
  by_contra hnever
  have hon : ∀ k, n ≤ k → (c.run w k s).1.leg = .pumping := by
    intro k hnk
    obtain ⟨m, hkm, hlater⟩ := exists_forall_pumping hnever k
    exact pumping_of_le hl (hlater m le_rfl) hnk hkm
  exact (endless_of_pumping hw hfit hs hroom hon).absurd_of_stopped hw hfit.batchSize hdry hstop

theorem stopped_of_turnedAway (hw : w.Lawful Heeding) (hfit : c.Fit) (hs : s.panel = .fresh c.settings.threadCount)
    {result : Result} (hl : (c.run w n s).1.leg = .pumping) (hl' : (c.run w (n + 1) s).1.leg = .dismissing result)
    (hsubmits : (c.run w n s).1.pump.point.waitsFor?.isSome ∨
      (c.run w (n + 1) s).1.pump.units ≠ (c.run w n s).1.pump.units) : result = .ok .stopped := by
  have hworking := (working_run hw hfit hs hl).meets hw
  have hturns := turns_step w c.settings (c.run w n s).1.request (c.run w n s).1.pump
    ((c.run w n s).1.pump.meets w (c.run w n s).2)
  rw [Ready.run_succ_of_pumping hl, Run.pumpOn] at hl' hsubmits
  cases hstep : (c.run w n s).1.pump.step w c.settings (c.run w n s).1.request
    ((c.run w n s).1.pump.meets w (c.run w n s).2) with
  | mk answer rest =>
    obtain ⟨p', s'⟩ := rest
    rw [hstep] at hturns hl' hsubmits
    cases answer with
    | none =>
      rw [hl] at hl'
      cases hl'
    | some result' =>
      cases hl'
      exact hworking.turnedAway hw hturns hsubmits

theorem outside_of_result? (hw : w.Lawful Heeding) (hfit : c.Fit) (hs : s.panel = .fresh c.settings.threadCount)
    {e : JobError} (h : (c.run w n s).1.result? = some (.error e)) : Outside e := by
  refine (sane_run hw hfit hs n).2.outside e ?_
  rw [leg_of_result? h]
  rfl

theorem Inside.head?_toList {text : String} (h : Inside (.internal text)) : text.toList.head? ≠ some 'f' := by
  cases h <;> decide

theorem not_inside_of_outside {e : JobError} (h : Outside e) : ¬ Inside e := by
  intro hi
  cases h with
  | monitor text | commands text => exact hi.head?_toList (by simp)
  | source text | hook stage text | unit identifier detail | exhausted waits | disk text => cases hi

/-- Of a job that was built, in any surroundings where others only command it through its panel, one write after the
other, as long as its limits are numbers that a machine can hold. -/
theorem progress_of_run {α β γ : Type} {d : Draft α β γ} {fs : Files} {a : Assembly α β γ} (hd : d.build fs = .ok a)
    (hw : w.Lawful Heeding) (hs : s.panel = .fresh a.job.settings.threadCount) (hroom : a.job.Countable w s) :
    Progress w a.job s := by
  have hfit := Draft.fit_of_build hd
  exact {
    workers := hfit.workers
    endpoints := fun _ hne => Draft.exists_endpointPool hd hne
    rounds := fun _ _ hnm hl hp hl' hp' => exists_gains hw hfit hs hroom hnm hl hp hl' hp'
    waits := fun _ hl hp => exists_outstanding_of_waiting hw hfit hs hl hp
    leaves := fun _ hdry hserved => exists_past_of_served hw hfit hs hroom hdry hserved
    stops := fun _ hdry _ hl hstop => exists_past_of_stopped hw hfit hs hroom hdry hl hstop
    refused := fun _ _ hl hl' hsubmits => stopped_of_turnedAway hw hfit hs hl hl' hsubmits
    faults := fun _ _ hover =>
      have houtside := outside_of_result? hw hfit hs hover
      ⟨houtside, not_inside_of_outside houtside⟩ }

/-- A stop that is slow: when the job first waits for room it is only marked, and the worker goes on; the pool is told
to discard when the job waits for room again. -/
def Surroundings.slowStop : Surroundings (List String) :=
  { Surroundings.listed with
    meanwhile := fun moment s =>
      if moment = .sending then
        if s.state.stopRequested then ⟨s.panel.onAttached (Order.obey · .discard), s.rest⟩
        else ⟨(s.panel.onState (Control.Request.mark · .stop)).onPool
          (·.advanceFor (fun _ => some (.success .zero)) 4), s.rest⟩
      else s }

theorem heeding_slowStop : Surroundings.slowStop.Lawful Heeding where
  openSource s := .refl s.panel
  next s := .refl s.panel
  closeSource s := .refl s.panel
  hook _ _ h := by cases h
  closeEndpoints s := .refl s.panel
  keep _ s := .refl s.panel
  meanwhile moment s := by
    simp only [Surroundings.slowStop]
    split
    · split
      · rename_i hstop
        exact heeding_obey fun _ => hstop
      · exact (heeding_mark .stop s.panel).trans (heeding_advanceFor _ 4 _)
    · exact .refl s.panel

theorem runsDry_slowStop : Surroundings.slowStop.RunsDry List.length where
  yields {s s' x} h := by
    obtain ⟨hhead, rfl⟩ := Prod.mk.inj h
    have hhead : s.rest.head? = some x := Except.ok.inj hhead
    cases hrest : s.rest with
    | nil => simp [hrest] at hhead
    | cons y rest => simp
  next s := by simp [Surroundings.slowStop, Surroundings.listed]
  keep _ _ := le_rfl
  meanwhile moment s := by
    simp only [Surroundings.slowStop]
    split
    · split <;> exact le_rfl
    · exact le_rfl

def Draft.narrow : Draft Unit Unit Unit :=
  (((Draft.start { Settings.default with queueSize := 1 }).withSource ()).withExecutor ()).withPool
    ⟨Settings.default.endpoints, [], 0, false⟩

/-- One more unit is submitted while the stop is only marked. It finds no room and is turned away once the pool
discards, and so the job is stopped. -/
theorem progress_of_slowStop : ∃ a : Assembly Unit Unit Unit, Draft.narrow.build .empty = .ok a ∧
    let run n := a.job.run .slowStop n .fourUnits
    Progress .slowStop a.job .fourUnits ∧
    ((run 21).2.state.stopRequested ∧ (run 21).2.panel.pool.map (·.discarding) = some false) ∧
    ((run 21).1.pump.units, (run 22).1.pump.units) = (2, 3) ∧
    (∃ m, ∀ n, m ≤ n → (run n).1.leg ≠ .pumping) ∧ (run 40).2.state.phase = .stopped := by
  obtain ⟨a, ha⟩ : ∃ a, Draft.narrow.build .empty = .ok a := ⟨_, rfl⟩
  have hover : (a.job.run .slowStop 40 .fourUnits).1.isOver := by
    cases ha
    decide +kernel
  have hbound : ∀ n < 40, ((a.job.run .slowStop n .fourUnits).1.pump.meets .slowStop
      (a.job.run .slowStop n .fourUnits).2).state.threadCount + a.job.settings.inFlightLimit < Text.limit64 := by
    cases ha
    decide +kernel
  have hroom : a.job.Countable .slowStop .fourUnits := by
    intro n hl
    refine hbound n (Nat.lt_of_not_le fun hn => ?_)
    rw [Ready.run_of_over hover hn] at hl
    exact ne_pumping_of_over hover hl
  have hprogress := progress_of_run ha heeding_slowStop (s := .fourUnits) (by cases ha; rfl) hroom
  refine ⟨a, ha, hprogress, ?_, ?_, hprogress.leaves _ runsDry_slowStop (served_of_over hover), ?_⟩ <;>
    cases ha <;> decide +kernel

end BatchJob.Job
