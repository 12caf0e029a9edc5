import BatchJob.Proofs.Job.Batching
import BatchJob.Proofs.Job.Heeding
import BatchJob.Proofs.Job.Turns

/-! The machine at work. As long as it goes on, it has an open pool to feed and a queue with room; so what can end it
is the completion of everything, a stop, or a fault that comes from outside. -/
namespace BatchJob.Job
open Worker Queue

/-- What a job cannot help: its source, a hook, a unit, the disk under its queue, or a thread that cannot be started. -/
inductive Outside : JobError → Prop
  | source (text : String) : Outside (.source text)
  | hook (stage : Stage) (text : String) : Outside (.hook stage text)
  | unit (identifier detail : String) : Outside (.unitFailed identifier detail)
  | exhausted (waits : Nat) : Outside (.refused (.exhausted waits))
  | disk (text : String) : Outside (.queue (.io text))
  | monitor (text : String) : Outside (.internal ("failed to start monitor thread: " ++ text))
  | commands (text : String) : Outside (.internal ("failed to start command file thread: " ++ text))

/-- The machine feeds a pool that is open, from a queue with room. -/
structure Working {σ : Type} (c : Settings) (request : Work.Request) (raw : List String) (p : Pump) (s : World σ) :
    Prop where
  fed : Fed c request False raw p s
  staffed : Staffed s
  roomy : p.queue.Roomy

variable {σ : Type} {w : Surroundings σ} {c : Settings} {request : Work.Request} {raw : List String}
variable {p p' p₁ : Pump} {q q' : Pool} {s s' s₁ : World σ} {stopped : Bool}

theorem Fed.sound (h : Fed c request False raw p s) (hq : s.panel.pool = some q) : ∃ journal, q.Sound journal := by
  obtain ⟨⟨q₁, sent, waiting, hq₁, hf, -⟩, -⟩ := h
  obtain rfl := Option.some.inj (hq.symm.trans hq₁)
  obtain ⟨journal, hj⟩ := hf.orderly
  exact ⟨journal, hj.sound⟩

theorem Working.heeding (h : Working c request raw p s) (hs : Heeding s.panel s'.panel) :
    Working c request raw p s' :=
  ⟨h.fed.stirred hs.toStirred, h.staffed.heeding (fun _ => h.fed.sound) hs, h.roomy⟩

theorem Inviting.receive (h : Inviting stopped q) (n : Nat) : Inviting stopped { q with received := n } :=
  ⟨h.unshut, h.accepting, h.depth, h.discarding, h.refused⟩

theorem Inviting.enter (h : Inviting stopped q) (u : WorkUnit) : Inviting stopped (q.enter u) := by
  have hsame : (q.enter u).shut = q.shut ∧ (q.enter u).accepting = q.accepting ∧ (q.enter u).depth = q.depth ∧
      (q.enter u).discarding = q.discarding := by
    rw [Pool.enter, Pool.place]
    split <;> exact ⟨rfl, rfl, rfl, rfl⟩
  obtain ⟨hshut, haccepting, hdepth, hdiscarding⟩ := hsame
  exact ⟨hshut.trans h.unshut, haccepting.trans h.accepting, hdepth ▸ h.depth,
    fun hd => h.discarding (hdiscarding.symm.trans hd), fun i hi => h.refused i (Pool.reply_enter u hi)⟩

/-- A submission is taken back only where the pool discards, which is after a stop. -/
theorem Inviting.giveUp? (h : Inviting stopped q) {serial : Nat} (hq : q.giveUp? serial = some q') :
    Inviting stopped q' := by
  have hh := Pool.heeds_perform? (a := .giveUp serial) hq
  refine ⟨(hh.shut nofun).trans h.unshut, (hh.accepting nofun).trans h.accepting, hh.depth ▸ h.depth,
    fun hd => h.discarding ((hh.discarding nofun).symm.trans hd), fun i _ => ?_⟩
  rw [Pool.giveUp?] at hq
  split at hq
  · rename_i hshut
    exact h.discarding (by simpa [h.unshut] using hshut.2)
  · cases hq

theorem Staffed.setPool (h : Staffed s) (hq : s.panel.pool = some q) (hi : Inviting s.state.stopRequested q') :
    Staffed (s.setPool q') where
  threads := h.threads
  pool q₁ hq₁ := by
    rw [pool_setPool hq] at hq₁
    obtain rfl := Option.some.inj hq₁
    exact hi

theorem stopRequested_tally (done : Completed) (t : Control.State) :
    (tally done t).stopRequested = t.stopRequested := by
  rw [tally]
  split <;> rfl

theorem threadCount_tally (done : Completed) (t : Control.State) : (tally done t).threadCount = t.threadCount := by
  rw [tally]
  split <;> rfl

theorem Staffed.tally (h : Staffed s) (done : Completed) : Staffed (s.onState (tally done)) where
  threads := (threadCount_tally done s.state).symm ▸ h.threads
  pool q hq := (stopRequested_tally done s.state).symm ▸ h.pool q hq

theorem Staffed.receive (h : Staffed s) {done : Option Completed} (hr : s.receive = (done, s')) : Staffed s' := by
  cases hq : s.panel.pool with
  | none =>
    simp only [World.receive, hq, Prod.mk.injEq] at hr
    exact hr.2 ▸ h
  | some q =>
    rw [receive_eq hq] at hr
    obtain ⟨-, rfl⟩ := Prod.mk.inj hr
    refine h.setPool hq ?_
    rw [Pool.receive]
    split
    · exact h.pool q hq
    · exact (h.pool q hq).receive _

theorem Staffed.submit (h : Staffed s) {u : WorkUnit} {serial : Nat} (hs : s.submit u = (.ok serial, s')) :
    Staffed s' := by
  cases hq : s.panel.pool with
  | none => simp [World.submit, hq] at hs
  | some q =>
    simp only [World.submit, hq] at hs
    obtain ⟨-, rfl⟩ := Prod.mk.inj hs
    refine h.setPool hq ?_
    rw [Pool.submit]
    split
    · exact (h.pool q hq).enter u
    · exact h.pool q hq

theorem Staffed.giveUp? (h : Staffed s) (serial : Nat) : Staffed ((s.giveUp? serial).getD s) := by
  cases hg : s.giveUp? serial with
  | none => exact h
  | some s' =>
    obtain ⟨q', hq', rfl⟩ := Option.map_eq_some_iff.mp hg
    obtain ⟨q, hq, hgive⟩ := Option.bind_eq_some_iff.mp hq'
    exact h.setPool hq ((h.pool q hq).giveUp? hgive)

theorem Staffed.stopped_of_unadmitted (h : Staffed s) (hq : s.panel.pool = some q) {u : WorkUnit} {e : PoolError}
    (hs : s.submit u = (.error e, s')) : s'.state.stopRequested = true := by
  simp only [World.submit, hq] at hs
  obtain ⟨herr, rfl⟩ := Prod.mk.inj hs
  refine (h.pool q hq).stopped ?_
  by_contra hadmits
  rw [Bool.not_eq_false] at hadmits
  simp [Pool.submit, hadmits] at herr

theorem Staffed.stopped_of_refused (h : Staffed s) {serial : Nat} (hr : s.isRefused serial = true) :
    s.state.stopRequested = true := by
  cases hq : s.panel.pool with
  | none => simp [World.isRefused, hq] at hr
  | some q =>
    simp only [World.isRefused, hq, Option.any_some, decide_eq_true_eq] at hr
    exact (h.pool q hq).refused serial hr

theorem Working.polled (hw : w.Lawful Heeding) (h : Working c request raw p s) :
    Staffed (p.polled w s).2 ∧ (p.polled w s).1.queue.Roomy :=
  ⟨h.staffed.heeding (fun _ => h.fed.sound) (hw.keep _ s), h.roomy.poll _⟩

theorem Working.ripe (hw : w.Lawful Heeding) (h : Working c request raw p s) (hripe : Ripe w c p s p₁ s₁) :
    Staffed s₁ ∧ p₁.queue.Roomy ∧ ∃ q, s₁.panel.pool = some q := by
  obtain ⟨⟨q, sent, waiting, hq, hf, -⟩, -⟩ := h.fed
  cases hripe with
  | full _ => exact ⟨h.staffed, h.roomy, q, hq⟩
  | last _ _ _ =>
    obtain ⟨q', -, hq', -⟩ := (hw.keep (p.queue.poll (w.disk s)).2.isOpen s).pool q hq
    exact ⟨(h.polled hw).1, (h.polled hw).2, q', hq'⟩

theorem Working.advances (hw : w.Lawful Heeding) (h : Working c request raw p s)
    (ha : Advances w c request p s p' s') : Staffed s' ∧ p'.queue.Roomy := by
  have hnext : ∀ {answer s'}, w.next s = (answer, s') → Working c request raw p s' := fun hn =>
    h.heeding (by simpa only [hn] using hw.next s)
  cases ha with
  | receive hp hr => exact ⟨(h.staffed.receive hr).tally _, h.roomy⟩
  | exhaust hp hmore hn => exact ⟨(hnext hn).staffed, h.roomy⟩
  | skip hp hmore hn hx => exact ⟨(hnext hn).staffed, h.roomy⟩
  | stage hp hmore hn hx ho => exact ⟨((hnext hn).heeding (hw.keep _ _)).staffed, h.roomy.offer _ _⟩
  | take hp hpoll => exact h.polled hw
  | submit hp hripe hs hroom | block hp hripe hs hroom =>
    obtain ⟨hstaffed, hroomy, -⟩ := h.ripe hw hripe
    exact ⟨hstaffed.submit hs, hroomy⟩
  | enter hp hr hb => exact ⟨h.staffed, h.roomy⟩

theorem Working.idles (hw : w.Lawful Heeding) (h : Working c request raw p s) (hi : Idles w c p s p' s') :
    Staffed s' ∧ p'.queue.Roomy := by
  cases hi with
  | begin hp hr hgo => exact ⟨h.staffed.receive hr, h.roomy⟩
  | drained hp hpoll hlast => exact h.polled hw
  | hold hp hr hb => exact ⟨h.staffed.giveUp? _, h.roomy⟩
  | wake hp hr => exact ⟨h.staffed.receive hr, h.roomy⟩
  | _ => exact ⟨h.staffed, h.roomy⟩

theorem Working.step (hw : w.Lawful Heeding) (hc : 0 < c.batchSize) (h : Working c request raw p s)
    (hstep : p.step w c request s = (none, p', s')) :
    Working c request (raw ++ pulled (p.asks w s)) p' s' ∧
      (Advances w c request p s p' s' ∨ Idles w c p s p' s') := by
  have hlawful : w.Lawful (Stirred False) := hw.mono fun _ _ h => h.toStirred
  have hgoes := h.fed.step hlawful hc
  have hturns := turns_step w c request p s
  rw [hstep] at hgoes hturns
  obtain ⟨hstaffed, hroomy⟩ : Staffed s' ∧ p'.queue.Roomy := hturns.elim (h.advances hw) (h.idles hw)
  exact ⟨⟨hgoes, hstaffed, hroomy⟩, hturns⟩

theorem outside_of_fatalOutcome? {done : Completed} {e : JobError} (h : fatalOutcome? c.failOnError done = some e) :
    Outside e := by
  obtain ⟨kind, -, hk⟩ := Option.bind_eq_some_iff.mp h
  cases kind with
  | poolExhausted waits =>
    cases hk
    exact .exhausted waits
  | _ =>
    simp only [fatal?] at hk
    split at hk <;> cases hk
    exact .unit _ _

theorem Working.turnedAway (hw : w.Lawful Heeding) (h : Working c request raw p s)
    {result : Except JobError Ending} (hh : Halts w c request p s result p')
    (hp : p.point.waitsFor?.isSome ∨ p'.units ≠ p.units) : result = .ok .stopped := by
  cases hh with
  | unadmitted hpoint hripe hs =>
    obtain ⟨hstaffed, -, q, hq⟩ := h.ripe hw hripe
    rw [Job.turnedAway, if_pos (hstaffed.stopped_of_unadmitted hq hs)]
  | refused hpoint hr => rw [Job.turnedAway, if_pos (h.staffed.stopped_of_refused hr)]
  | failed hpoint hr he => rcases hpoint with hpoint | hpoint <;> simp [hpoint, Point.waitsFor?] at hp
  | stopped hpoint => rfl
  | source hpoint _ _ | offer hpoint _ _ _ _ | overfull hpoint _ _ _ | poll hpoint _ | completed hpoint _
  | closed hpoint _ _ =>
    simp [hpoint, Point.waitsFor?, Pump.offered, Pump.polled] at hp

theorem Working.outside (hw : w.Lawful Heeding) (h : Working c request raw p s) {e : JobError}
    (hh : Halts w c request p s (.error e) p') : Outside e := by
  have hturned := h.turnedAway hw hh
  obtain ⟨⟨q, sent, waiting, hq, hf, -⟩, -⟩ := h.fed
  generalize hresult : (Except.error e : Except JobError Ending) = result at hh hturned
  cases hh with
  | failed hp hr he =>
    cases hresult
    exact outside_of_fatalOutcome? he
  | source hp hmore hn =>
    cases hresult
    exact .source _
  | offer hp hmore hn hx ho =>
    cases hresult
    obtain ⟨text, rfl⟩ := Staging.offer_error hf.queue (ne_empty_of_not_blank hx) ho
    exact .disk text
  | overfull hp hmore hn ho =>
    refine absurd ho (Staging.offer_ne_false ?_ _ _)
    simp only [Pump.isStaged, not_or] at hmore
    simpa using hmore.2.2
  | poll hp hpoll =>
    cases hresult
    obtain ⟨text, rfl⟩ := Staging.poll_error hf.queue hpoll
    exact .disk text
  | @unadmitted p₁ s₁ s' limit e' hp hripe hs =>
    have hunits : p₁.cut.units ≠ p.units := by
      cases hripe <;> simp [Pump.cut, Pump.polled]
    rw [hturned (Or.inr hunits)] at hresult
    cases hresult
  | refused hp hr =>
    rw [hturned (Or.inl (by simp [hp, Point.waitsFor?]))] at hresult
    cases hresult
  | stopped hp => cases hresult
  | completed hp hdone => cases hresult
  | closed hp hr hclosed =>
    rw [receive_eq hq] at hr
    obtain ⟨-, rfl⟩ := Prod.mk.inj hr
    simp [World.canComplete, pool_setPool hq] at hclosed

end BatchJob.Job
