import BatchJob.Proofs.Control.Office
import BatchJob.Proofs.Job.Rounds
import BatchJob.Proofs.Worker.Idle

/-! What a job counts. Others who act count nothing; a step of the machine that feeds the worker pool counts the
unit that it received, if it received one. -/
namespace BatchJob.Job
open Worker Control

variable {σ : Type} {w : Surroundings σ} {c : Settings} {request : Work.Request}
variable {log : List Completed} {p : Pump} {q q' : Pool} {s s' : World σ} {t : State}

/-- What becomes of a panel when others act, who can neither count what was discarded nor write the report. -/
structure Undisturbed (p p' : Panel) : Prop extends Stirred False p p' where
  discarded : p'.state.discarded = p.state.discarded
  report : p'.state.report = p.state.report

/-- Nothing is counted or reported, and no completion is received or lost. -/
structure Uncounted (p p' : Panel) : Prop where
  succeeded : p'.state.succeeded = p.state.succeeded
  failed : p'.state.failed = p.state.failed
  discarded : p'.state.discarded = p.state.discarded
  report : p'.state.report = p.state.report
  pool : ∀ q, p.pool = some q →
    ∃ q', p'.pool = some q' ∧ q.completions <+: q'.completions ∧ q'.received = q.received

theorem Surroundings.Lawful.mono {law wider : Panel → Panel → Prop} (h : w.Lawful law)
    (hl : ∀ p p', law p p' → wider p p') : w.Lawful wider where
  openSource s := hl _ _ (h.openSource s)
  next s := hl _ _ (h.next s)
  closeSource s := hl _ _ (h.closeSource s)
  hook stage hook hs o s := hl _ _ (h.hook stage hook hs o s)
  closeEndpoints s := hl _ _ (h.closeEndpoints s)
  keep isOpen s := hl _ _ (h.keep isOpen s)
  meanwhile m s := hl _ _ (h.meanwhile m s)

theorem Undisturbed.refl (p : Panel) : Undisturbed p p := ⟨.refl p, rfl, rfl⟩

theorem Undisturbed.trans {p p' p'' : Panel} (h : Undisturbed p p') (h' : Undisturbed p' p'') :
    Undisturbed p p'' :=
  ⟨h.toStirred.trans h'.toStirred, h'.discarded.trans h.discarded, h'.report.trans h.report⟩

theorem Uncounted.refl (p : Panel) : Uncounted p p :=
  ⟨rfl, rfl, rfl, rfl, fun q hq => ⟨q, hq, List.prefix_refl _, rfl⟩⟩

theorem Uncounted.trans {p p' p'' : Panel} (h : Uncounted p p') (h' : Uncounted p' p'') :
    Uncounted p p'' where
  succeeded := h'.succeeded.trans h.succeeded
  failed := h'.failed.trans h.failed
  discarded := h'.discarded.trans h.discarded
  report := h'.report.trans h.report
  pool q hq := by
    obtain ⟨q₁, hq₁, hc₁, hr₁⟩ := h.pool q hq
    obtain ⟨q₂, hq₂, hc₂, hr₂⟩ := h'.pool q₁ hq₁
    exact ⟨q₂, hq₂, hc₁.trans hc₂, hr₂.trans hr₁⟩

theorem Undisturbed.uncounted {p p' : Panel} (h : Undisturbed p p') : Uncounted p p' where
  succeeded := h.succeeded
  failed := h.failed
  discarded := h.discarded
  report := h.report
  pool q hq := by
    obtain ⟨q', k, hq', hl⟩ := h.pool q hq
    exact ⟨q', hq', Pool.completions_of_leads (fun _ => internal_of_others) hl⟩

theorem state_onAttached (p : Panel) (f : Pool → Pool) : (p.onAttached f).state = p.state := by
  rw [Panel.onAttached]
  split <;> rfl

theorem undisturbed_setPaused (paused : Bool) {here there : Phase} (h : here.isFinal = false)
    (h' : there.isFinal = false) (p : Panel) : Undisturbed p (p.onState (Panel.setPaused paused here there)) := by
  have hkept : (Panel.setPaused paused here there p.state).discarded = p.state.discarded ∧
      (Panel.setPaused paused here there p.state).report = p.state.report := by
    rw [Panel.setPaused]
    simp only
    split <;> exact ⟨rfl, rfl⟩
  exact ⟨stirred_setPaused paused h h', hkept.1, hkept.2⟩

theorem undisturbed_onAttached {f : Pool → Pool} (hf : ∀ q, ∃ k, Pool.Leads (Others False) q k (f q)) (p : Panel) :
    Undisturbed p (p.onAttached f) := by
  have hsame := state_onAttached p f
  exact ⟨stirred_onAttached hf, by rw [hsame], by rw [hsame]⟩

theorem undisturbed_mark (r : Control.Request) (p : Panel) : Undisturbed p (p.onState (Control.Request.mark · r)) := by
  show Undisturbed p { p with state := r.mark p.state }
  cases r with
  | pause =>
    simp only [Control.Request.mark]
    split
    · exact .refl p
    · exact undisturbed_setPaused true rfl rfl p
  | resume =>
    simp only [Control.Request.mark]
    split
    · exact .refl p
    · exact undisturbed_setPaused false rfl rfl p
  | stop =>
    simp only [Control.Request.mark]
    split
    · exact .refl p
    · exact ⟨stirred_onState (f := fun t => { t with stopRequested := true, paused := false }) rfl rfl rfl
        (fun _ => rfl) (Or.inl rfl), rfl, rfl⟩
  | setThreads count =>
    simp only [Control.Request.mark]
    split
    · exact .refl p
    · exact ⟨stirred_onState (f := fun t => { t with threadCount := count }) rfl rfl rfl (fun h => h.elim)
        (Or.inl rfl), rfl, rfl⟩

theorem leads_obey (o : Order) (q : Pool) : ∃ k, Pool.Leads (Others False) q k (o.obey q) := by
  cases o with
  | discard => exact ⟨[], .single (a := .discard) (Or.inr (Or.inr (Or.inr (Or.inl rfl)))) rfl⟩
  | pause => exact ⟨[], .single (a := .pause) (Or.inr (Or.inl rfl)) rfl⟩
  | resume => exact ⟨[], .single (a := .resume) (Or.inr (Or.inr (Or.inl rfl))) rfl⟩
  | workers count =>
    exact ⟨_, (Pool.leads_setWorkers q count).mono fun a ha => Or.inr (Or.inr (Or.inr (Or.inr ⟨id, ha⟩)))⟩

theorem undisturbed_obey (o : Order) (p : Panel) : Undisturbed p (p.onAttached (Order.obey · o)) :=
  undisturbed_onAttached (leads_obey o) p

theorem undisturbed_orders (orders : List Order) (p : Panel) :
    Undisturbed p (orders.foldl (fun p o => p.onAttached (Order.obey · o)) p) := by
  induction orders generalizing p with
  | nil => exact .refl p
  | cons o rest ih => exact (undisturbed_obey o p).trans (ih _)

theorem undisturbed_handle (p : Panel) (r : Control.Request) : Undisturbed p (p.handle r) := by
  rw [Panel.handle_eq_orders]
  exact (undisturbed_mark r p).trans (undisturbed_orders _ _)

theorem undisturbed_handleAll (requests : List Control.Request) (p : Panel) :
    Undisturbed p (requests.foldl .handle p) := by
  induction requests generalizing p with
  | nil => exact .refl p
  | cons request rest ih => exact (undisturbed_handle p request).trans (ih _)

theorem undisturbed_poll (watcher : Watcher) (text : Option String) (p : Panel) :
    Undisturbed p (watcher.poll text p).2.2 := by
  rw [Watcher.poll]
  split
  · exact .refl p
  · exact undisturbed_handleAll _ _

theorem undisturbed_advanceFor (outcome? : Task → Option Work.Outcome) (n : Nat) (p : Panel) :
    Undisturbed p (p.onPool (·.advanceFor outcome? n)) := ⟨stirred_advanceFor outcome? n p, rfl, rfl⟩

def itemsOf (success : Bool) (log : List Completed) : Nat :=
  ((log.filter (·.outcome.isSuccess = success)).map (·.task.unit.items)).sum

/-- What was counted of the identifiers is those of the units in the log. -/
structure Booked (log : List Completed) (t : State) : Prop where
  succeeded : t.succeeded = itemsOf true log
  failed : t.failed = itemsOf false log

theorem itemsOf_append (success : Bool) (log rest : List Completed) :
    itemsOf success (log ++ rest) = itemsOf success log + itemsOf success rest := by simp [itemsOf]

theorem Booked.tally (h : Booked log t) (done : Completed) : Booked (log ++ [done]) (tally done t) := by
  have hsucceeded := h.succeeded
  have hfailed := h.failed
  constructor
  · rw [itemsOf_append, ← hsucceeded, Job.tally]
    cases ho : done.outcome.isSuccess <;> simp [itemsOf, ho]
  · rw [itemsOf_append, ← hfailed, Job.tally]
    cases ho : done.outcome.isSuccess <;> simp [itemsOf, ho]

theorem discarded_tally (done : Completed) (t : State) : (tally done t).discarded = t.discarded := by
  rw [tally]
  split <;> rfl

theorem report_tally (done : Completed) (t : State) : (tally done t).report = t.report := by
  rw [tally]
  split <;> rfl

theorem isSuccess_of_fatalOutcome? {done : Completed} (h : fatalOutcome? true done = none) :
    done.outcome.isSuccess = true := by
  unfold fatalOutcome? at h
  unfold Work.Outcome.isSuccess Work.Status.isSuccess
  cases hk : done.outcome.status.kind? with
  | none => rfl
  | some kind => cases kind <;> simp [hk, fatal?] at h

def Pump.counts (p : Pump) (s : World σ) : List Completed :=
  match p.point with
  | .collecting => s.receive.1.toList
  | .waiting => s.receive.1.toList
  | _ => []

/-- A step counts a unit that was received and ends as that unit wants it, or it counts nothing. -/
inductive Counts (c : Settings) (s : World σ) : List Completed → Step σ → Prop
  | nothing {result : Option (Except JobError Ending)} {p : Pump} {s' : World σ}
      (h : Uncounted s.panel s'.panel) : Counts c s [] (result, p, s')
  | one {done : Completed} {p : Pump} {s' : World σ} (h : s.receive = (some done, s')) :
    Counts c s [done] ((fatalOutcome? c.failOnError done).map .error, p, s'.onState (tally done))

theorem Counts.same (c : Settings) (result : Option (Except JobError Ending)) (p : Pump) (s : World σ) :
    Counts c s [] (result, p, s) := .nothing (.refl _)

theorem uncounted_setPool (hq : s.panel.pool = some q) (hc : q.completions <+: q'.completions)
    (hr : q'.received = q.received) : Uncounted s.panel (s.setPool q').panel where
  succeeded := rfl
  failed := rfl
  discarded := rfl
  report := rfl
  pool q₁ hq₁ := by
    rw [hq] at hq₁
    cases hq₁
    exact ⟨q', pool_setPool hq q', hc, hr⟩

theorem uncounted_receive (h : s.receive = (none, s')) : Uncounted s.panel s'.panel := by
  cases hq : s.panel.pool with
  | none =>
    simp only [World.receive, hq, Prod.mk.injEq, true_and] at h
    exact h ▸ .refl _
  | some q =>
    obtain ⟨-, rfl⟩ := receive_eq_none hq h
    exact uncounted_setPool hq (List.prefix_refl _) rfl

theorem uncounted_submit (u : WorkUnit) (s : World σ) : Uncounted s.panel (s.submit u).2.panel := by
  cases hq : s.panel.pool with
  | none =>
    simp only [World.submit, hq]
    exact .refl _
  | some q =>
    obtain ⟨-, -, hcompl, hrec, -⟩ := Pool.units_enter q u
    simp only [World.submit, hq]
    rw [Pool.submit]
    split
    · exact uncounted_setPool hq (hcompl ▸ List.prefix_refl _) hrec
    · exact uncounted_setPool hq (List.prefix_refl _) rfl

theorem uncounted_giveUp? (s : World σ) (serial : Nat) :
    Uncounted s.panel ((s.giveUp? serial).getD s).panel := by
  cases hg : s.giveUp? serial with
  | none => exact .refl _
  | some s' =>
    obtain ⟨q', hq', rfl⟩ := Option.map_eq_some_iff.mp hg
    obtain ⟨q, hq, hgive⟩ := Option.bind_eq_some_iff.mp hq'
    obtain ⟨-, hcompl, hrec, -, -⟩ := Pool.giveUp?_serves hgive
    exact uncounted_setPool hq (hcompl ▸ List.prefix_refl _) hrec

theorem Pump.record_eq (c : Settings) (p : Pump) (done : Completed) (s : World σ) :
    p.record c done s = ((fatalOutcome? c.failOnError done).map .error,
      { p with inFlight := p.inFlight - 1, point := .collecting }, s.onState (tally done)) := by
  simp only [Pump.record]
  cases fatalOutcome? c.failOnError done <;> rfl

theorem Pump.counts_collect (p : Pump) (s : World σ) : Counts c s s.receive.1.toList (p.collect c s) := by
  rw [Pump.collect]
  cases hr : s.receive with
  | mk done s' =>
    cases done with
    | some done =>
      simp only [Pump.record_eq, Option.toList_some]
      exact .one hr
    | none =>
      simp only [Option.toList_none]
      split <;> exact .nothing (uncounted_receive hr)

theorem Pump.counts_wait (p : Pump) (s : World σ) : Counts c s s.receive.1.toList (p.wait c s) := by
  rw [Pump.wait]
  cases hr : s.receive with
  | mk done s' =>
    cases done with
    | some done =>
      simp only [Pump.record_eq, Option.toList_some]
      exact .one hr
    | none =>
      simp only
      split <;> exact .nothing (uncounted_receive hr)

theorem Pump.counts_stage (hw : w.Lawful Undisturbed) (p : Pump) (s : World σ) :
    Counts c s [] (p.stage w c s) := by
  have hnext := (hw.next s).uncounted
  rw [Pump.stage]
  split
  · exact .same c _ _ s
  · cases hr : w.next s with
    | mk answer s' =>
      rw [hr] at hnext
      rcases answer with e | _ | x
      · exact .nothing hnext
      · exact .nothing hnext
      · simp only
        split
        · exact .nothing hnext
        · have hkeep := (hw.keep (p.queue.offer x (w.disk s')).2.isOpen s').uncounted
          simp only [Pump.offer]
          split <;> exact .nothing (hnext.trans hkeep)

theorem Pump.counts_submit (limit : Nat) (p : Pump) (h : Uncounted s.panel s'.panel) :
    Counts c s [] (p.submit c request limit s') := by
  have hsubmit := uncounted_submit (.batch p.units p.batch c.batchDelimiter request) s'
  simp only [Pump.submit]
  cases hr : s'.submit (.batch p.units p.batch c.batchDelimiter request) with
  | mk answer s'' =>
    rw [hr] at hsubmit
    cases answer with
    | error e =>
      simp only [Pump.refused]
      split <;> exact .nothing (h.trans hsubmit)
    | ok serial =>
      simp only
      split <;> exact .nothing (h.trans hsubmit)

theorem Pump.counts_fill (hw : w.Lawful Undisturbed) (limit : Nat) (p : Pump) (s : World σ) :
    Counts c s [] (p.fill w c request limit s) := by
  have hkeep := (hw.keep (p.queue.poll (w.disk s)).2.isOpen s).uncounted
  rw [Pump.fill]
  split
  · exact .same c _ _ s
  · split
    · exact Pump.counts_submit limit p (.refl _)
    · simp only
      split
      · exact .nothing hkeep
      · exact .nothing hkeep
      · split
        · exact Pump.counts_submit limit _ hkeep
        · exact .nothing hkeep

theorem Pump.counts_send (limit serial : Nat) (p : Pump) (s : World σ) :
    Counts c s [] (p.send limit serial s) := by
  rw [Pump.send]
  split
  · rw [Pump.refused]
    split <;> exact .same c _ _ s
  · split
    · exact .nothing (uncounted_giveUp? s serial)
    · exact .same c _ _ s

theorem Pump.counts_conclude (p : Pump) (s : World σ) : Counts c s [] (p.conclude s) := by
  rw [Pump.conclude]
  split
  · exact .same c _ _ s
  · split <;> exact .same c _ _ s

theorem Pump.counts_step (hw : w.Lawful Undisturbed) (p : Pump) (s : World σ) :
    Counts c s (p.counts s) (p.step w c request s) := by
  unfold Pump.counts Pump.step
  cases p.point with
  | collecting => exact p.counts_collect s
  | staging => exact p.counts_stage hw s
  | filling limit => exact p.counts_fill hw limit s
  | sending limit serial => exact p.counts_send limit serial s
  | concluding => exact p.counts_conclude s
  | waiting => exact p.counts_wait s

/-- While the pool is fed, the units in the log are the first that completed there, as many as were received. -/
structure Counting (log : List Completed) (s : World σ) : Prop where
  received : ∃ q, s.panel.pool = some q ∧ q.received ≤ q.completions.length ∧
    log = q.completions.take q.received
  booked : Booked log s.state
  discarded : s.state.discarded = 0

/-- Where a unit that fails ends the job, none has failed as long as it goes on. -/
def Faultless (failOnError : Bool) (t : State) : Prop := failOnError = true → t.failed = 0

theorem Counting.uncounted (h : Counting log s) (hs : Uncounted s.panel s'.panel) : Counting log s' where
  received := by
    obtain ⟨q, hq, hle, hlog⟩ := h.received
    obtain ⟨q', hq', hc, hr⟩ := hs.pool q hq
    refine ⟨q', hq', by rw [hr]; exact hle.trans hc.length_le, ?_⟩
    rw [hr, take_eq_of_prefix hc hle]
    exact hlog
  booked := ⟨hs.succeeded.trans h.booked.succeeded, hs.failed.trans h.booked.failed⟩
  discarded := hs.discarded.trans h.discarded

theorem Counting.receive (h : Counting log s) {done : Completed} (hr : s.receive = (some done, s')) :
    Counting (log ++ [done]) (s'.onState (tally done)) := by
  obtain ⟨q, hq, hle, hlog⟩ := h.received
  obtain ⟨hdone, rfl⟩ := receive_eq_some hq hr
  refine ⟨⟨_, pool_setPool hq _, (List.getElem?_eq_some_iff.mp hdone).1, ?_⟩, h.booked.tally done,
    (discarded_tally done _).trans h.discarded⟩
  rw [hlog, List.take_add_one, hdone, Option.toList_some]

/-- What a step counts goes into the log, and if it does not end with an error, it counted no failure that should
have ended the job. -/
theorem Counting.step (h : Counting log s) {counted : List Completed} {step : Step σ}
    (hs : Counts c s counted step) : Counting (log ++ counted) step.2.2 ∧
      (Faultless c.failOnError s.state → (∀ e, step.1 ≠ some (.error e)) →
        Faultless c.failOnError step.2.2.state) := by
  cases hs with
  | nothing hu =>
    rw [List.append_nil]
    exact ⟨h.uncounted hu, fun hclean _ hf => hu.failed.trans (hclean hf)⟩
  | @one done p s' hr =>
    refine ⟨h.receive hr, fun hclean hgoes hf => ?_⟩
    obtain ⟨q, hq, -, -⟩ := h.received
    obtain ⟨-, rfl⟩ := receive_eq_some hq hr
    have hsuccess : done.outcome.isSuccess = true := by
      rw [hf] at hgoes
      refine isSuccess_of_fatalOutcome? ?_
      cases he : fatalOutcome? true done with
      | none => rfl
      | some e =>
        rw [he] at hgoes
        exact absurd rfl (hgoes e)
    have hfailed : (tally done s.state).failed = s.state.failed := by rw [tally, if_pos hsuccess]
    exact hfailed.trans (hclean hf)

end BatchJob.Job
