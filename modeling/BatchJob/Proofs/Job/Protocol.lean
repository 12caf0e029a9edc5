import BatchJob.Proofs.Job.Story

/-! Hooks, phases and results of a run go by one protocol, whatever the source yields, whichever hooks there are and
fail, and whatever is requested from outside. -/
namespace BatchJob.Job
open Worker Queue Control

/-- The units are submitted in one go, with nothing but them between what comes before and what comes after; not
before the second hook succeeded, and not after the last one began. -/
structure Block {σ : Type} (w : Surroundings σ) (events before : List Event) (units : List WorkUnit)
    (after : List Event) : Prop where
  eq : events = before ++ units.map .submitted ++ after
  alone : ∀ u, .submitted u ∉ before ++ after
  framed : units ≠ [] → (w.hasHook .preBatch → .hooked .preBatch true ∈ before) ∧
    ∀ ok, .hooked .postBatch ok ∉ before

/-- What can be said when the run is over. -/
structure Ends {σ : Type} (w : Surroundings σ) (c : Settings) (events : List Event)
    (outcome : Except JobError Report) (s : World σ) : Prop where
  postBatch : ∀ total, .opened total ∈ events → total ≠ 0 → w.hasHook .postBatch →
    ((∃ ok, .hooked .postBatch ok ∈ events) ↔ .pumped (.ok .completed) ∈ events)
  preBatchEmpty : .opened 0 ∈ events → w.hasHook .preBatch →
    ((∃ ok, .hooked .preBatch ok ∈ events) ↔ c.hooksWhenEmpty ∧ .hooked .init false ∉ events)
  postBatchEmpty : .opened 0 ∈ events → w.hasHook .postBatch →
    ((∃ ok, .hooked .postBatch ok ∈ events) ↔
      c.hooksWhenEmpty ∧ .hooked .init false ∉ events ∧ .hooked .preBatch false ∉ events)
  failed : s.state.phase = .failed ↔ ∃ e, outcome = .error e
  stopped : s.state.phase = .stopped ↔ .pumped (.ok .stopped) ∈ events
  completed : s.state.phase = .completed ↔ (∃ report, outcome = .ok report) ∧ .pumped (.ok .stopped) ∉ events
  report : ∃ report, s.state.report = some report ∧ report.snapshot.phase = s.state.phase ∧
    ∀ other, outcome = .ok other → other = report

/-- What can be said at any time. When a hook has failed nothing more happens, and nothing goes on in the pool. A run
crashes only where the workers cannot be given a deadline. The phase that ends the job stays, while the run goes on
and whatever is requested later. -/
structure Protocol {σ : Type} (w : Surroundings σ) (c : Ready) (events : List Event) (r : Run) (s : World σ) :
    Prop where
  hooks : Event.hooks events <+: Stage.all.filter w.hasHook
  units : ∃ before units after, Block w events before units after
  failed : ∀ stage, .hooked stage false ∈ events →
    (∃ before, events = before ++ [.hooked stage false]) ∧ s.Quiet
  empty : .opened 0 ∈ events → s.panel.pool = none ∧ ∀ u, .submitted u ∉ events
  ends : ∀ outcome, r.result? = some outcome → Ends w c.settings events outcome s
  crashed : ∀ result, r.leg = .crashed result → (∃ t, Run.hasDeadline w c.settings t = false) ∧
    (∀ ok, .hooked .postBatch ok ∉ events) ∧ s.state.phase.isFinal = false ∧ s.state.report = none
  settled : s.state.phase.isFinal → (∀ n, (Run.steps w c n r s).2.state.phase = s.state.phase) ∧
    ∀ requests : List Request, (requests.foldl .handle s.panel).state.phase = s.state.phase

variable {σ : Type} {w : Surroundings σ} {c : Ready} {raw : List String} {events : List Event}
variable {r : Run} {s s' : World σ} {result : Result} {hooksWhenEmpty : Bool}

@[simp] theorem hooks_nil : Event.hooks [] = [] := rfl

@[simp] theorem hooks_opened (total : Nat) (rest : List Event) :
    Event.hooks (.opened total :: rest) = Event.hooks rest := rfl

@[simp] theorem hooks_hooked (stage : Stage) (ok : Bool) (rest : List Event) :
    Event.hooks (.hooked stage ok :: rest) = stage :: Event.hooks rest := rfl

@[simp] theorem hooks_pumped (result : Result) (rest : List Event) :
    Event.hooks (.pumped result :: rest) = Event.hooks rest := rfl

@[simp] theorem hooks_submitted (units : List WorkUnit) : Event.hooks (units.map .submitted) = [] := by
  simp [Event.hooks, List.filterMap_map]

@[simp] theorem hooks_append (events more : List Event) :
    Event.hooks (events ++ more) = Event.hooks events ++ Event.hooks more := List.filterMap_append

@[simp] theorem hooks_ran (stages : List Stage) : Event.hooks (ran w stages) = stages.filter w.hasHook := by
  simp [Event.hooks, ran, List.filterMap_map]

@[simp] theorem hooks_prologue (total : Nat) :
    Event.hooks (prologue w total) = [Stage.init].filter w.hasHook := hooks_ran [.init]

@[simp] theorem hooks_readied (total : Nat) :
    Event.hooks (readied w total) = [Stage.init, .preBatch].filter w.hasHook := hooks_ran [.init, .preBatch]

@[simp] theorem hooks_worked (total : Nat) (units : List WorkUnit) (result : Result) :
    Event.hooks (worked w total units result) = [Stage.init, .preBatch].filter w.hasHook := by
  simp [worked]

/-- The hooks for the first stages ran, as far as there are any. -/
def RanUpTo (w : Surroundings σ) (stages : List Stage) (events : List Event) : Prop :=
  stages <+: Stage.all ∧ Event.hooks events = stages.filter w.hasHook

theorem RanUpTo.hooks {stages : List Stage} (h : RanUpTo w stages events) :
    Event.hooks events <+: Stage.all.filter w.hasHook := by
  rw [h.2]
  exact h.1.filter w.hasHook

theorem RanUpTo.passed {stages : List Stage} {stage : Stage} (h : RanUpTo w stages events)
    (hnext : stages ++ [stage] <+: Stage.all) : RanUpTo w (stages ++ [stage]) (events ++ ran w [stage]) :=
  ⟨hnext, by rw [hooks_append, hooks_ran, h.2, List.filter_append]⟩

theorem RanUpTo.failed {stages : List Stage} {stage : Stage} (h : RanUpTo w stages events)
    (hnext : stages ++ [stage] <+: Stage.all) (hook : w.hasHook stage) :
    RanUpTo w (stages ++ [stage]) (events ++ [.hooked stage false]) :=
  ⟨hnext, by simp [h.2, List.filter_append, hook]⟩

theorem ranUpTo_prologue (total : Nat) : RanUpTo w [.init] (prologue w total) := ⟨by decide, hooks_prologue total⟩

theorem ranUpTo_readied (total : Nat) : RanUpTo w [.init, .preBatch] (readied w total) :=
  ⟨by decide, hooks_readied total⟩

theorem ranUpTo_worked (total : Nat) (units : List WorkUnit) (result : Result) :
    RanUpTo w [.init, .preBatch] (worked w total units result) := ⟨by decide, hooks_worked total units result⟩

theorem Concluded.ranUpTo (h : Concluded w hooksWhenEmpty events result) : ∃ stages, RanUpTo w stages events := by
  cases h with
  | unopened => exact ⟨[], by decide, rfl⟩
  | initFailed total e hook => exact ⟨[.init], by decide, by simp [hook]⟩
  | preBatchFailed _ e hook => exact ⟨_, (ranUpTo_prologue _).failed (by decide) hook⟩
  | nothing _ => exact ⟨_, ranUpTo_prologue 0⟩
  | hooksOnly _ => exact ⟨_, (ranUpTo_readied 0).passed (by decide)⟩
  | hooksOnlyFailed _ e hook => exact ⟨_, (ranUpTo_readied 0).failed (by decide) hook⟩
  | unstaffed _ e => exact ⟨_, ranUpTo_readied _⟩
  | broken _ units _ => exact ⟨_, ranUpTo_worked _ units _⟩
  | completed _ units => exact ⟨_, (ranUpTo_worked _ units _).passed (by decide)⟩
  | postBatchFailed _ units e hook => exact ⟨_, (ranUpTo_worked _ units _).failed (by decide) hook⟩

theorem Story.ranUpTo (h : Story w c events r s) : ∃ stages, RanUpTo w stages events := by
  cases h with
  | unopened _ he => exact ⟨[], by decide, by rw [he]; rfl⟩
  | opened _ he => exact ⟨[], by decide, by rw [he]; rfl⟩
  | weighing _ he | beginning _ _ he | emptyBefore _ _ _ he => exact ⟨_, he ▸ ranUpTo_prologue _⟩
  | readying _ _ he | unwatched _ _ he | emptyAfter _ _ _ he => exact ⟨_, he ▸ ranUpTo_readied _⟩
  | @pumping total _ _ units he => exact ⟨[.init, .preBatch], by decide, by simp [he]⟩
  | winding _ _ units he | after _ _ units he => exact ⟨_, he ▸ ranUpTo_worked _ units _⟩
  | finishing _ h _ | reporting _ h _ _ | done _ h _ _ _ _ => exact h.ranUpTo

theorem Block.empty (h : ∀ u, .submitted u ∉ events) : Block w events events [] [] :=
  ⟨by simp, by simpa using h, fun hne => absurd rfl hne⟩

theorem block_readied (total : Nat) (units : List WorkUnit) {after : List Event}
    (h : ∀ u, .submitted u ∉ after) :
    Block w (readied w total ++ units.map .submitted ++ after) (readied w total) units after where
  eq := rfl
  alone u := by simp [h]
  framed _ := by simp

theorem Concluded.block (h : Concluded w hooksWhenEmpty events result) :
    ∃ before units after, Block w events before units after := by
  cases h with
  | unopened => exact ⟨_, _, _, .empty (by simp)⟩
  | initFailed total e hook => exact ⟨_, _, _, .empty (by simp)⟩
  | preBatchFailed _ e hook => exact ⟨_, _, _, .empty (by simp)⟩
  | nothing _ => exact ⟨_, _, _, .empty (by simp)⟩
  | hooksOnly _ => exact ⟨_, _, _, .empty (by simp)⟩
  | hooksOnlyFailed _ e hook => exact ⟨_, _, _, .empty (by simp)⟩
  | unstaffed _ e => exact ⟨_, _, _, .empty (by simp)⟩
  | broken _ units _ => exact ⟨_, _, _, block_readied _ units (by simp)⟩
  | completed _ units =>
    rw [worked, List.append_assoc]
    exact ⟨_, _, _, block_readied _ units (by simp)⟩
  | postBatchFailed _ units e hook =>
    rw [worked, List.append_assoc]
    exact ⟨_, _, _, block_readied _ units (by simp)⟩

theorem Story.block (h : Story w c events r s) : ∃ before units after, Block w events before units after := by
  cases h with
  | unopened _ he | opened _ he | weighing _ he | beginning _ _ he | emptyBefore _ _ _ he | readying _ _ he
  | unwatched _ _ he | emptyAfter _ _ _ he => exact ⟨_, _, _, .empty (by simp [he])⟩
  | pumping _ _ units he =>
    rw [he, ← List.append_nil (_ ++ _)]
    exact ⟨_, _, _, block_readied _ units (by simp)⟩
  | winding _ _ units he | after _ _ units he =>
    rw [he]
    exact ⟨_, _, _, block_readied _ units (by simp)⟩
  | finishing _ h _ | reporting _ h _ _ | done _ h _ _ _ _ => exact h.block

theorem Concluded.lastOfFailed (h : Concluded w hooksWhenEmpty events result) {stage : Stage}
    (hmem : .hooked stage false ∈ events) : ∃ before, events = before ++ [.hooked stage false] := by
  cases h with
  | initFailed total e hook =>
    obtain rfl : stage = .init := by simpa using hmem
    exact ⟨[.opened total], rfl⟩
  | preBatchFailed _ e hook =>
    obtain rfl : stage = .preBatch := by simpa using hmem
    exact ⟨_, rfl⟩
  | hooksOnlyFailed _ e hook | postBatchFailed _ units e hook =>
    obtain rfl : stage = .postBatch := by simpa using hmem
    exact ⟨_, rfl⟩
  | _ => simp at hmem

theorem Story.failed (h : Story w c events r s) {stage : Stage} (hmem : .hooked stage false ∈ events) :
    (∃ before, events = before ++ [.hooked stage false]) ∧ s.Quiet := by
  cases h with
  | finishing _ h hrest | reporting _ h hrest _ | done _ h hrest _ _ _ =>
    exact ⟨h.lastOfFailed hmem, hrest.quiet stage hmem⟩
  | unopened _ he | opened _ he | weighing _ he | beginning _ _ he | emptyBefore _ _ _ he | readying _ _ he
  | unwatched _ _ he | emptyAfter _ _ _ he | pumping _ _ _ he | winding _ _ _ he | after _ _ _ he =>
    rw [he] at hmem
    simp at hmem

theorem Concluded.nothingSubmitted (h : Concluded w hooksWhenEmpty events result) (hmem : .opened 0 ∈ events)
    (u : WorkUnit) : .submitted u ∉ events := by
  cases h with
  | broken ht units _ | completed ht units | postBatchFailed ht units e hook => simp [Ne.symm ht] at hmem
  | _ => simp

theorem Story.empty (hcourse : Course c False raw r s) (h : Story w c events r s) (hmem : .opened 0 ∈ events) :
    s.panel.pool = none ∧ ∀ u, .submitted u ∉ events := by
  cases h with
  | unopened _ he => simp [he] at hmem
  | opened hl he => exact ⟨(hcourse.unstaffed (hl ▸ .hooking .init .weighing)).pool, by simp [he]⟩
  | weighing hl he => exact ⟨(hcourse.unstaffed (hl ▸ .weighing)).pool, by simp [he]⟩
  | emptyBefore _ hnone _ he | emptyAfter _ hnone _ he => exact ⟨hnone, by simp [he]⟩
  | finishing _ h hrest | reporting _ h hrest _ | done _ h hrest _ _ _ =>
    exact ⟨hrest.noPool hmem, h.nothingSubmitted hmem⟩
  | beginning ht _ he | readying ht _ he | unwatched ht _ he | pumping ht _ _ he | winding ht _ _ he
  | after ht _ _ he =>
    rw [he] at hmem
    simp [Ne.symm ht] at hmem

theorem Concluded.stopped (h : Concluded w hooksWhenEmpty events result) :
    .pumped (.ok .stopped) ∈ events ↔ result = .ok .stopped := by
  cases h with
  | broken _ units _ => simp [@eq_comm Result (.ok .stopped)]
  | _ => simp

theorem Concluded.postBatch (h : Concluded w hooksWhenEmpty events result) {total : Nat}
    (hmem : .opened total ∈ events) (ht : total ≠ 0) (hook : w.hasHook .postBatch) :
    (∃ ok, .hooked .postBatch ok ∈ events) ↔ .pumped (.ok .completed) ∈ events := by
  cases h with
  | nothing _ | hooksOnly _ | hooksOnlyFailed _ _ _ => simp [ht] at hmem
  | broken _ units hr => simp [Ne.symm hr]
  | _ => simp [hook]

theorem Concluded.preBatchEmpty (h : Concluded w hooksWhenEmpty events result) (hmem : .opened 0 ∈ events)
    (hook : w.hasHook .preBatch) :
    (∃ ok, .hooked .preBatch ok ∈ events) ↔ hooksWhenEmpty ∧ .hooked .init false ∉ events := by
  cases h with
  | preBatchFailed ht e _ =>
    obtain rfl : 0 = _ := by simpa using hmem
    simpa using ht
  | broken ht units _ | completed ht units | postBatchFailed ht units e _ | unstaffed ht e =>
    simp [Ne.symm ht] at hmem
  | nothing hc | hooksOnly hc | hooksOnlyFailed hc _ _ => simp [hc, hook]
  | _ => simp at hmem ⊢

theorem Concluded.postBatchEmpty (h : Concluded w hooksWhenEmpty events result) (hmem : .opened 0 ∈ events)
    (hook : w.hasHook .postBatch) : (∃ ok, .hooked .postBatch ok ∈ events) ↔
      hooksWhenEmpty ∧ .hooked .init false ∉ events ∧ .hooked .preBatch false ∉ events := by
  cases h with
  | broken ht units _ | completed ht units | postBatchFailed ht units e _ | unstaffed ht e =>
    simp [Ne.symm ht] at hmem
  | nothing hc | hooksOnly hc | hooksOnlyFailed hc _ _ => simp [hc, hook]
  | _ => simp at hmem ⊢

theorem phaseOf_eq_failed : Run.phaseOf result = .failed ↔ ∃ e, result = .error e := by
  rcases result with e | (_ | _) <;> simp [Run.phaseOf]

theorem phaseOf_eq_stopped : Run.phaseOf result = .stopped ↔ result = .ok .stopped := by
  rcases result with e | (_ | _) <;> simp [Run.phaseOf]

theorem phaseOf_eq_completed_iff : Run.phaseOf result = .completed ↔
    (∃ ending, result = .ok ending) ∧ result ≠ .ok .stopped := by
  rcases result with e | (_ | _) <;> simp [Run.phaseOf]

theorem Story.ends (h : Story w c events r s) {outcome : Except JobError Report}
    (hover : r.result? = some outcome) : Ends w c.settings events outcome s := by
  have hleg := leg_of_result? hover
  cases h with
  | @done result report hl h hrest hphase hreport htold =>
    obtain rfl : result.map (fun _ => report) = outcome := by
      rw [hl] at hleg
      exact Leg.over.inj hleg
    have hfailed : (∃ e, result.map (fun _ => report) = .error e) ↔ ∃ e, result = .error e := by
      cases result <;> simp [Except.map]
    have hreturned : (∃ told, result.map (fun _ => report) = .ok told) ↔ ∃ ending, result = .ok ending := by
      cases result <;> simp [Except.map]
    have hkept (other : Report) (ho : result.map (fun _ => report) = .ok other) : other = report := by
      cases result with
      | error e => cases ho
      | ok ending => exact (Except.ok.inj ho).symm
    exact ⟨fun total => h.postBatch, h.preBatchEmpty, h.postBatchEmpty,
      by rw [hphase, phaseOf_eq_failed, hfailed],
      by rw [hphase, phaseOf_eq_stopped, h.stopped],
      by rw [hphase, phaseOf_eq_completed_iff, hreturned, h.stopped],
      ⟨report, hreport, htold.trans hphase.symm, hkept⟩⟩
  | unopened hl _ =>
    rw [hleg] at hl
    rcases hl with hl | hl <;> cases hl
  | opened hl _ | weighing hl _ | beginning _ hl _ | readying _ hl _ | pumping _ hl _ _ | winding _ hl _ _
  | unwatched _ hl _ | emptyBefore _ _ hl _ | emptyAfter _ _ hl _ | after _ hl _ _ | finishing hl _ _
  | reporting hl _ _ _ =>
    rw [hleg] at hl
    cases hl

theorem report_receive (s : World σ) : s.receive.2.state.report = s.state.report := by
  rw [World.receive]
  cases s.panel.pool <;> rfl

theorem report_tallyRest (n : Nat) (s : World σ) : (Run.tallyRest n s).state.report = s.state.report := by
  induction n generalizing s with
  | zero => rfl
  | succ n ih =>
    have hreceive := report_receive s
    rw [Run.tallyRest]
    cases hr : s.receive with
    | mk done s' =>
      rw [hr] at hreceive
      cases done with
      | none => exact hreceive
      | some done => exact (ih _).trans ((report_tally done _).trans hreceive)

theorem report_tallyAll (result : Result) (s : World σ) :
    (Run.tallyAll result s).state.report = s.state.report := by
  have hnote : (Run.noteDiscarded result s).state.report = s.state.report := by
    unfold Run.noteDiscarded
    split <;> rfl
  exact (report_tallyRest _ _).trans hnote

theorem report_pumpOn (hw : w.Lawful Undisturbed) (r : Run) (s : World σ) :
    (r.pumpOn w c.settings s).2.state.report = s.state.report := by
  have hcounts : Counts c.settings s (r.pump.counts s) (r.pump.step w c.settings r.request s) :=
    r.pump.counts_step hw s
  rw [Run.pumpOn]
  generalize r.pump.step w c.settings r.request s = step at hcounts
  generalize r.pump.counts s = counted at hcounts
  cases hcounts with
  | @nothing ended p s' h => cases ended <;> exact h.report
  | @one done p s' hr =>
    have hreport : s'.state.report = s.state.report := by
      rw [← report_receive s, hr]
    cases fatalOutcome? c.settings.failOnError done <;> exact (report_tally done _).trans hreport

theorem report_openSource (hw : w.Lawful Undisturbed) (vars : Text.Table) (r : Run) (s : World σ) :
    (r.openSource w vars s).2.state.report = s.state.report := by
  have hact := hw.openSource s
  rw [Run.openSource]
  cases ha : w.openSource s with
  | mk answer s' =>
    rw [ha] at hact
    cases answer <;> exact hact.report

theorem report_runHook (hw : w.Lawful Undisturbed) (stage : Stage) (next : Leg) (r : Run) (s : World σ) :
    (r.runHook w stage next s).2.state.report = s.state.report := by
  rw [Run.runHook]
  cases hh : w.hook stage with
  | none => rfl
  | some hook =>
    have hact := hw.hook stage hook hh ⟨stage, s.state.total, r.request⟩ s
    cases ha : hook ⟨stage, s.state.total, r.request⟩ s with
    | mk answer s' =>
      rw [ha] at hact
      cases answer <;> simp only [ha] <;> exact hact.report

/-- Only the last step writes a report. -/
theorem report_step (hw : w.Lawful Undisturbed) (hl : ∀ result, r.leg ≠ .reporting result) (s : World σ) :
    (r.step w c s).2.state.report = s.state.report := by
  have hmeanwhile : (w.meanwhile r.moment s).state.report = s.state.report := (hw.meanwhile r.moment s).report
  rw [← hmeanwhile, Run.step]
  generalize w.meanwhile r.moment s = s
  cases hleg : r.leg with
  | opening => exact report_openSource hw c.vars r s
  | hooking stage next => exact report_runHook hw stage next r s
  | launched =>
    simp only
    split <;> rfl
  | staffing =>
    rw [Run.staff]
    cases Pool.create c.settings.workers with
    | error e => rfl
    | ok q =>
      simp only
      split <;> rfl
  | pumping => exact report_pumpOn hw r s
  | dismissing result =>
    simp only [Run.dismiss]
    split <;> rfl
  | emptying result =>
    simp only [Run.empty]
    cases hd : s.drop? with
    | none => rfl
    | some s' =>
      obtain ⟨q, q', -, -, rfl⟩ := drop?_eq_some hd
      rfl
  | shutting result =>
    simp only [Run.shut]
    split <;> rfl
  | tallying result => exact report_tallyAll result s
  | closing result => exact (lawful_close hw (fun _ _ _ => Undisturbed.trans) r.pump.queue s).report
  | reporting result => exact absurd hleg (hl result)
  | _ => rfl

/-- As long as the run is not over there is no report. -/
def Unreported (r : Run) (s : World σ) : Prop := r.result? = none → s.state.report = none

theorem Unreported.step (hw : w.Lawful Undisturbed) (h : Unreported r s) :
    Unreported (r.step w c s).1 (r.step w c s).2 := by
  intro hnone
  by_cases hl : ∀ result, r.leg ≠ .reporting result
  · rw [report_step hw hl]
    refine h ?_
    cases hover : r.result? with
    | none => rfl
    | some outcome => simp [Run.step, leg_of_result? hover, Run.result?] at hnone
  · obtain ⟨result, hl⟩ := not_forall_not.mp hl
    simp [Run.step, hl, Run.file, Run.result?] at hnone

theorem Unreported.steps (hw : w.Lawful Undisturbed) (h : Unreported r s) (n : Nat) :
    Unreported (Run.steps w c n r s).1 (Run.steps w c n r s).2 := by
  induction n generalizing r s with
  | zero => exact h
  | succ n ih =>
    by_cases hover : r.isOver
    · rw [Run.steps_of_isOver hover]
      exact h
    · rw [Run.steps_succ hover]
      exact ih (h.step hw)

theorem Story.crashed (h : Story w c events r s) (hl : r.leg = .crashed result) :
    (∃ t, Run.hasDeadline w c.settings t = false) ∧ ∀ ok, .hooked .postBatch ok ∉ events := by
  cases h with
  | winding _ hl' units he | unwatched _ hl' he =>
    rw [hl] at hl'
    cases hl' with
    | crashed hnone => exact ⟨⟨_, hnone⟩, by simp [he]⟩
  | unopened hl' _ =>
    rw [hl] at hl'
    rcases hl' with hl' | hl' <;> cases hl'
  | readying _ hl' _ | finishing hl' _ _ =>
    rw [hl] at hl'
    cases hl'
  | opened hl' _ | weighing hl' _ | beginning _ hl' _ | pumping _ hl' _ _ | emptyBefore _ _ hl' _
  | emptyAfter _ _ hl' _ | after _ hl' _ _ | reporting hl' _ _ _ | done hl' _ _ _ _ _ =>
    rw [hl] at hl'
    cases hl'

theorem Stirred.settled {p p' : Panel} (h : Stirred False p p') (hfinal : p.state.phase.isFinal) :
    p'.state.phase = p.state.phase := by
  rcases h.phase with he | ⟨hopen, -⟩
  · exact he
  · rw [hfinal] at hopen
    cases hopen

theorem Course.settled_step (hw : w.Lawful (Stirred False)) (h : Course c False raw r s)
    (hfinal : s.state.phase.isFinal) : (r.step w c s).2.state.phase = s.state.phase := by
  have hact := hw.meanwhile r.moment s
  have hkept : (w.meanwhile r.moment s).state.phase = s.state.phase := hact.settled hfinal
  rw [← hkept] at hfinal ⊢
  cases h.stirred hact with
  | early _ _ h =>
    rw [h.phase] at hfinal
    cases hfinal
  | pumping hl h =>
    rw [h.phase] at hfinal
    cases hfinal
  | late _ _ hphase =>
    rw [hphase] at hfinal
    cases hfinal
  | last hl _ _ =>
    rw [Run.step]
    generalize r.leg = leg at hl ⊢
    cases hl <;> rfl

theorem Course.settled_steps (hw : w.Lawful (Stirred False)) (hc : 0 < c.settings.batchSize)
    (hqueue : c.queue.Holds []) (n : Nat) (h : Course c False raw r s) (hfinal : s.state.phase.isFinal) :
    (Run.steps w c n r s).2.state.phase = s.state.phase := by
  induction n generalizing raw r s with
  | zero => rfl
  | succ n ih =>
    by_cases hover : r.isOver
    · rw [Run.steps_of_isOver hover]
    · have hstep := h.settled_step hw hfinal
      rw [Run.steps_succ hover, ← hstep]
      exact ih (h.step hw hc hqueue fun h => h.elim) (hstep ▸ hfinal)

theorem Story.protocol (hw : w.Lawful Undisturbed) (hc : 0 < c.settings.batchSize) (hqueue : c.queue.Holds [])
    (hcourse : Course c False raw r s) (hreport : Unreported r s) (h : Story w c events r s) :
    Protocol w c events r s where
  hooks := by
    obtain ⟨stages, hup⟩ := h.ranUpTo
    exact hup.hooks
  units := h.block
  failed _ := h.failed
  empty := h.empty hcourse
  ends _ := h.ends
  crashed result hl := by
    obtain ⟨hnone, hhooks⟩ := h.crashed hl
    have hlate : Late result r.leg := hl ▸ .crashed
    have hunreported : s.state.report = none := hreport (by rw [Run.result?, hl])
    exact ⟨hnone, hhooks, (hcourse.ended hlate).2, hunreported⟩
  settled hfinal :=
    have hlawful : w.Lawful (Stirred False) := hw.mono fun _ _ => Undisturbed.toStirred
    ⟨fun n => hcourse.settled_steps hlawful hc hqueue n hfinal,
      fun requests => (undisturbed_handleAll requests s.panel).settled hfinal⟩

/-- Any job that was built keeps to the protocol, at each of its steps. What is told is what the record of the run
tells, and keeping the record changes nothing else. -/
theorem protocol_of_run {α β γ : Type} {d : Draft α β γ} {fs : Files} {a : Assembly α β γ}
    (hd : d.build fs = .ok a) (hw : w.Lawful Undisturbed) (hs : s.panel = .fresh a.job.settings.threadCount)
    (n : Nat) :
    (∃ log, a.job.run w.recorded n (s.noting []) = Run.noting (a.job.run w n s) log) ∧
      Protocol w a.job ((Run.start a.job.queue).told w a.job n (s.noting [])) (a.job.run w n s).1
        (a.job.run w n s).2 := by
  obtain ⟨hbatch, hqueue⟩ := Draft.of_build hd
  have hlawful : w.Lawful (Stirred False) := hw.mono fun _ _ => Undisturbed.toStirred
  have hstart : Course a.job False (pulled []) (Run.start a.job.queue) s := .start hs fun h => h.elim
  have hstory : Story w a.job [] (Run.start a.job.queue) s := .unopened (Or.inl rfl) rfl
  have hreport : Unreported (Run.start a.job.queue) s := fun _ => by
    rw [World.state, hs]
    rfl
  obtain ⟨log, hlog⟩ := Run.steps_recorded w a.job n (Run.start a.job.queue) s []
  exact ⟨⟨[] ++ log, hlog⟩, (hstory.steps hw hbatch hqueue n [] hstart).protocol hw hbatch hqueue
    (hstart.steps hlawful hbatch hqueue (fun h => h.elim) n) (hreport.steps hw n)⟩

/-- All units succeed, and so do the hooks, up to the last one. Whoever waits for a unit asks for a pause and then
for more workers, and resumes. -/
def Surroundings.lastHookFails : Surroundings (List String) :=
  { Surroundings.listed with
    hook := fun stage => some fun _ s => (if stage = .postBatch then .error "not delivered" else .ok (), s)
    meanwhile := fun moment s =>
      let requests : List Request := if moment = .waiting then [.pause, .setThreads 2, .resume] else []
      ⟨(requests.foldl .handle s.panel).onPool (·.advanceFor (fun _ => some (.success .zero)) 1), s.rest⟩ }

theorem undisturbed_lastHookFails : Surroundings.lastHookFails.Lawful Undisturbed where
  openSource s := .refl s.panel
  next s := .refl s.panel
  closeSource s := .refl s.panel
  hook stage hook h o s := by
    cases h
    exact .refl s.panel
  closeEndpoints s := .refl s.panel
  keep _ s := .refl s.panel
  meanwhile _ s := (undisturbed_handleAll _ s.panel).trans (undisturbed_advanceFor _ 1 _)

/-- All four units are done when the last hook fails, and then the job has failed. -/
theorem protocol_of_lastHookFails :
    ∃ a : Assembly Unit Unit Unit, Draft.lenient.build .empty = .ok a ∧
      let told := (Run.start a.job.queue).told .lastHookFails a.job 60 (World.fourUnits.noting [])
      let run := a.job.run .lastHookFails 60 .fourUnits
      Event.hooks told = [.init, .preBatch, .postBatch] ∧ run.1.result?.isSome ∧
        (run.2.state.phase, run.2.state.succeeded, run.2.state.threadCount) = (.failed, 4, 2) ∧
        Protocol .lastHookFails a.job told run.1 run.2 := by
  obtain ⟨a, ha⟩ : ∃ a, Draft.lenient.build .empty = .ok a := ⟨_, rfl⟩
  obtain ⟨-, hp⟩ := protocol_of_run ha undisturbed_lastHookFails (s := .fourUnits) (by cases ha; rfl) 60
  refine ⟨a, ha, ?_, ?_, ?_, hp⟩ <;> cases ha <;> decide +kernel

/-- The longest time that can be configured for the workers to leave. -/
def Draft.patient : Draft Unit Unit Unit :=
  (((Draft.start { Settings.default with drainTimeout := Text.limit64 - 1 }).withSource
    ()).withExecutor ()).withPool ⟨Settings.default.endpoints, [], 0, false⟩

/-- Then all four units are done and the pumping has ended well, but the run is over without its last hook, a phase
that is final, or a report. -/
theorem not_ended_of_patient :
    ∃ a : Assembly Unit Unit Unit, Draft.patient.build .empty = .ok a ∧
      let told := (Run.start a.job.queue).told .lastHookFails a.job 60 (World.fourUnits.noting [])
      let run := a.job.run .lastHookFails 60 .fourUnits
      Event.hooks told = [.init, .preBatch] ∧ .pumped (.ok .completed) ∈ told ∧
        Surroundings.lastHookFails.hasHook .postBatch ∧ run.1.isOver ∧ run.1.result?.isNone ∧
        (run.2.state.phase, run.2.state.succeeded) = (.running, 4) ∧ run.2.state.report.isNone := by
  obtain ⟨a, ha⟩ : ∃ a, Draft.patient.build .empty = .ok a := ⟨_, rfl⟩
  refine ⟨a, ha, ?_, ?_, ?_, ?_, ?_, ?_, ?_⟩ <;> cases ha <;> decide +kernel

end BatchJob.Job
