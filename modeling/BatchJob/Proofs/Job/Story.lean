import BatchJob.Proofs.Job.Events

/-! The story of a run, as it can be told at each of its legs: first the hooks before the work, then the units with
the end of the pumping, then the last hook; and how it goes on where a hook fails or nothing is there to work on. -/
namespace BatchJob.Job
open Worker Queue Control

section Tellings
variable {σ : Type} (w : Surroundings σ)

def ran (stages : List Stage) : List Event := (stages.filter w.hasHook).map fun stage => .hooked stage true

def prologue (total : Nat) : List Event := .opened total :: ran w [.init]

def readied (total : Nat) : List Event := .opened total :: ran w [.init, .preBatch]

def worked (total : Nat) (units : List WorkUnit) (result : Result) : List Event :=
  readied w total ++ units.map .submitted ++ [.pumped result]

/-- The whole story of a run with this result. -/
inductive Concluded (hooksWhenEmpty : Bool) : List Event → Result → Prop
  | unopened (e : JobError) : Concluded hooksWhenEmpty [] (.error e)
  | initFailed (total : Nat) (e : JobError) (hook : w.hasHook .init) :
    Concluded hooksWhenEmpty [.opened total, .hooked .init false] (.error e)
  | preBatchFailed {total : Nat} (h : total ≠ 0 ∨ hooksWhenEmpty) (e : JobError) (hook : w.hasHook .preBatch) :
    Concluded hooksWhenEmpty (prologue w total ++ [.hooked .preBatch false]) (.error e)
  | nothing (h : hooksWhenEmpty = false) : Concluded hooksWhenEmpty (prologue w 0) (.ok .completed)
  | hooksOnly (h : hooksWhenEmpty) :
    Concluded hooksWhenEmpty (readied w 0 ++ ran w [.postBatch]) (.ok .completed)
  | hooksOnlyFailed (h : hooksWhenEmpty) (e : JobError) (hook : w.hasHook .postBatch) :
    Concluded hooksWhenEmpty (readied w 0 ++ [.hooked .postBatch false]) (.error e)
  | unstaffed {total : Nat} (h : total ≠ 0) (e : JobError) : Concluded hooksWhenEmpty (readied w total) (.error e)
  | broken {total : Nat} (h : total ≠ 0) (units : List WorkUnit) {result : Result} (hr : result ≠ .ok .completed) :
    Concluded hooksWhenEmpty (worked w total units result) result
  | completed {total : Nat} (h : total ≠ 0) (units : List WorkUnit) :
    Concluded hooksWhenEmpty (worked w total units (.ok .completed) ++ ran w [.postBatch]) (.ok .completed)
  | postBatchFailed {total : Nat} (h : total ≠ 0) (units : List WorkUnit) (e : JobError)
    (hook : w.hasHook .postBatch) :
    Concluded hooksWhenEmpty (worked w total units (.ok .completed) ++ [.hooked .postBatch false]) (.error e)

/-- The legs from the hook before the work to the work. -/
inductive Readying : Leg → Prop
  | launching : Readying .launching
  | launched : Readying .launched
  | staffing : Readying .staffing

/-- The legs on which the workers are sent home, and the one where that was tried without a deadline. -/
inductive Winding (c : Settings) (result : Result) : Leg → Prop
  | dismissing : Winding c result (.dismissing result)
  | emptying : Winding c result (.emptying result)
  | shutting : Winding c result (.shutting result)
  | crashed {s : World σ} (h : Run.hasDeadline w c s = false) : Winding c result (.crashed result)
  | tallying : Winding c result (.tallying result)

/-- The legs on which the story is over, and the phase is not yet settled. -/
inductive Finishing (result : Result) : Leg → Prop
  | closing : Finishing result (.closing result)
  | ending : Finishing result (.ending result)

/-- What holds at the end: after a hook that failed, or with nothing to work on, nothing goes on. -/
structure AtRest (events : List Event) (s : World σ) : Prop where
  quiet : ∀ stage, .hooked stage false ∈ events → s.Quiet
  noPool : .opened 0 ∈ events → s.panel.pool = none

/-- How far a run has come of which these events can be told. -/
inductive Story (c : Ready) (events : List Event) (r : Run) (s : World σ) : Prop
  | unopened (hl : r.leg = .starting ∨ r.leg = .opening) (he : events = [])
  | opened (hl : r.leg = .hooking .init .weighing) (he : events = [.opened s.state.total])
  | weighing (hl : r.leg = .weighing) (he : events = prologue w s.state.total)
  | beginning {total : Nat} (ht : total ≠ 0) (hl : r.leg = .hooking .preBatch .launching)
    (he : events = prologue w total)
  | readying {total : Nat} (ht : total ≠ 0) (hl : Readying r.leg) (he : events = readied w total)
  | pumping {total : Nat} (ht : total ≠ 0) (hl : r.leg = .pumping) (units : List WorkUnit)
    (he : events = readied w total ++ units.map .submitted)
  | winding {total : Nat} (ht : total ≠ 0) {result : Result} (hl : Winding w c.settings result r.leg)
    (units : List WorkUnit) (he : events = worked w total units result)
  | unwatched {total : Nat} (ht : total ≠ 0) {e : JobError} (hl : Winding w c.settings (.error e) r.leg)
    (he : events = readied w total)
  | emptyBefore (hc : c.settings.hooksWhenEmpty) (hnone : s.panel.pool = none)
    (hl : r.leg = .hooking .preBatch (.hooking .postBatch (.closing (.ok .completed))))
    (he : events = prologue w 0)
  | emptyAfter (hc : c.settings.hooksWhenEmpty) (hnone : s.panel.pool = none)
    (hl : r.leg = .hooking .postBatch (.closing (.ok .completed))) (he : events = readied w 0)
  | after {total : Nat} (ht : total ≠ 0)
    (hl : r.leg = .hooking .postBatch (.closing (.ok .completed))) (units : List WorkUnit)
    (he : events = worked w total units (.ok .completed))
  | finishing {result : Result} (hl : Finishing result r.leg)
    (h : Concluded w c.settings.hooksWhenEmpty events result) (hrest : AtRest events s)
  | reporting {result : Result} (hl : r.leg = .reporting result)
    (h : Concluded w c.settings.hooksWhenEmpty events result) (hrest : AtRest events s)
    (hphase : s.state.phase = Run.phaseOf result)
  | done {result : Result} {report : Report} (hl : r.leg = .over (result.map fun _ => report))
    (h : Concluded w c.settings.hooksWhenEmpty events result) (hrest : AtRest events s)
    (hphase : s.state.phase = Run.phaseOf result) (hreport : s.state.report = some report)
    (htold : report.snapshot.phase = Run.phaseOf result)

end Tellings

variable {σ : Type} {w : Surroundings σ} {c : Ready} {raw : List String} {events : List Event}
variable {r : Run} {s s' : World σ} {result : Result} {stage : Stage} {total : Nat}

theorem ran_append (stages more : List Stage) : ran w (stages ++ more) = ran w stages ++ ran w more := by
  simp [ran]

theorem prologue_ran (total : Nat) : prologue w total ++ ran w [.preBatch] = readied w total := by
  rw [prologue, readied, List.cons_append, ← ran_append]
  rfl

@[simp] theorem mem_ran {event : Event} {stages : List Stage} :
    event ∈ ran w stages ↔ ∃ stage ∈ stages, w.hasHook stage ∧ .hooked stage true = event := by
  simp [ran, and_assoc]

@[simp] theorem mem_prologue {event : Event} : event ∈ prologue w total ↔
    event = .opened total ∨ event ∈ ran w [.init] := by
  simp [prologue]

@[simp] theorem mem_readied {event : Event} : event ∈ readied w total ↔
    event = .opened total ∨ event ∈ ran w [.init, .preBatch] := by
  simp [readied]

@[simp] theorem mem_worked {event : Event} {units : List WorkUnit} : event ∈ worked w total units result ↔
    event ∈ readied w total ∨ (∃ u ∈ units, .submitted u = event) ∨ event = .pumped result := by
  simp [worked]

theorem AtRest.stirred (h : AtRest events s) (hs : Stirred False s.panel s'.panel) : AtRest events s' where
  quiet stage hmem := (h.quiet stage hmem).stirred hs
  noPool hmem := hs.noPool (h.noPool hmem)

theorem atRest_of_none (events : List Event) (h : s.panel.pool = none) : AtRest events s :=
  ⟨fun _ _ => quiet_of_none h, fun _ => h⟩

theorem Story.undisturbed (h : Story w c events r s) (hs : Undisturbed s.panel s'.panel) :
    Story w c events r s' := by
  have hstirred := hs.toStirred
  have htotal : s'.state.total = s.state.total := hs.total
  have hfinal (result : Result) (hphase : s.state.phase = Run.phaseOf result) :
      s'.state.phase = Run.phaseOf result := by
    rcases hs.phase with he | ⟨hopen, -⟩
    · exact he.trans hphase
    · have hnot : s.state.phase.isFinal = false := hopen
      rw [hphase, Run.isFinal_phaseOf] at hnot
      cases hnot
  cases h with
  | unopened hl he => exact .unopened hl he
  | opened hl he => exact .opened hl (by rw [he, htotal])
  | weighing hl he => exact .weighing hl (by rw [he, htotal])
  | beginning ht hl he => exact .beginning ht hl he
  | readying ht hl he => exact .readying ht hl he
  | pumping ht hl units he => exact .pumping ht hl units he
  | winding ht hl units he => exact .winding ht hl units he
  | unwatched ht hl he => exact .unwatched ht hl he
  | emptyBefore hc hnone hl he => exact .emptyBefore hc (hs.noPool hnone) hl he
  | emptyAfter hc hnone hl he => exact .emptyAfter hc (hs.noPool hnone) hl he
  | after ht hl units he => exact .after ht hl units he
  | finishing hl h hrest => exact .finishing hl h (hrest.stirred hstirred)
  | reporting hl h hrest hphase => exact .reporting hl h (hrest.stirred hstirred) (hfinal _ hphase)
  | done hl h hrest hphase hreport htold =>
    exact .done hl h (hrest.stirred hstirred) (hfinal _ hphase) (hs.report.trans hreport) htold

theorem runHook_told {law : Panel → Panel → Prop} (hw : w.Lawful law) (hrefl : ∀ p, law p p) {next : Leg}
    (hl : r.leg = .hooking stage next) (s : World σ) : ∃ s', law s.panel s'.panel ∧
      ((r.runHook w stage next s = (r.go next, s') ∧ r.acts w c s = ran w [stage]) ∨
        (w.hasHook stage ∧ ∃ e, r.runHook w stage next s = (r.fail e, s') ∧
          r.acts w c s = [.hooked stage false])) := by
  have hacts : r.acts w c s =
      ((w.hook stage).map fun hook => Event.hooked stage (hook ⟨stage, s.state.total, r.request⟩ s).1.isOk).toList := by
    simp only [Run.acts, Run.calls, hl]
    cases w.hook stage <;> rfl
  rw [Run.runHook, hacts]
  cases hh : w.hook stage with
  | none => exact ⟨s, hrefl _, Or.inl ⟨rfl, by simp [ran, Surroundings.hasHook, hh]⟩⟩
  | some hook =>
    have hhas : w.hasHook stage := by simp [Surroundings.hasHook, hh]
    have hact := hw.hook stage hook hh ⟨stage, s.state.total, r.request⟩ s
    cases ha : hook ⟨stage, s.state.total, r.request⟩ s with
    | mk answer s' =>
      rw [ha] at hact
      cases answer with
      | error text =>
        exact ⟨s', hact, Or.inr ⟨hhas, .hook stage text, by simp [ha], by simp [ha, Except.isOk, Except.toBool]⟩⟩
      | ok u => exact ⟨s', hact, Or.inl ⟨by simp [ha], by simp [ha, ran, hhas, Except.isOk, Except.toBool]⟩⟩

theorem Story.weigh (hnone : s.panel.pool = none) (r : Run) :
    Story w c (prologue w s.state.total) (r.go (Run.course c.settings s.state.total)) s := by
  rw [Run.course]
  split
  · exact .beginning (by omega) rfl rfl
  · have hzero : s.state.total = 0 := by omega
    rw [hzero]
    cases hc : c.settings.hooksWhenEmpty with
    | true => exact .emptyBefore hc hnone rfl rfl
    | false => exact .finishing .closing (.nothing hc) (atRest_of_none _ hnone)

theorem Story.staff (ht : total ≠ 0) (hnone : s.panel.pool = none) :
    Story w c (readied w total) (r.staff w c.settings s).1 (r.staff w c.settings s).2 := by
  rw [Run.staff]
  cases hq : Pool.create c.settings.workers with
  | error e => exact .finishing .closing (.unstaffed ht _) (atRest_of_none _ hnone)
  | ok q =>
    simp only
    split
    · exact .unwatched ht .dismissing rfl
    · exact .pumping ht rfl [] (by simp)

theorem Story.ready (hcourse : Course c False raw r (w.meanwhile r.moment s)) (ht : total ≠ 0) (hl : Readying r.leg) :
    Story w c (readied w total ++ r.acts w c (w.meanwhile r.moment s)) (r.step w c s).1 (r.step w c s).2 := by
  generalize hleg : r.leg = leg at hl
  cases hl with
  | launching =>
    simp only [Run.acts, Run.calls, Run.step, hleg, List.filterMap_nil, List.append_nil]
    exact .readying ht .launched rfl
  | launched =>
    simp only [Run.acts, Run.calls, Run.step, hleg, List.filterMap_nil, List.append_nil]
    exact .readying ht .staffing rfl
  | staffing =>
    have hnone := (hcourse.unstaffed (hleg ▸ .staffing)).pool
    simp only [Run.acts, Run.calls, Run.step, hleg, List.filterMap_nil, List.append_nil]
    exact .staff ht hnone

theorem winding_step (hl : Winding w c.settings result r.leg) :
    Winding w c.settings result (r.step w c s).1.leg ∨ (r.step w c s).1.leg = Run.afterWork result := by
  rw [Run.step]
  generalize w.meanwhile r.moment s = s
  generalize hleg : r.leg = leg at hl ⊢
  cases hl with
  | dismissing =>
    simp only [Run.dismiss]
    split
    · exact Or.inl .shutting
    · exact Or.inl .emptying
  | emptying =>
    simp only [Run.empty]
    split
    · exact Or.inl (hleg ▸ .emptying)
    · exact Or.inl .shutting
  | shutting =>
    simp only [Run.shut]
    split
    · exact Or.inl .tallying
    · exact Or.inl (.crashed (Bool.eq_false_iff.mpr ‹_›))
  | crashed hnone =>
    have hcrashed : Winding w c.settings result r.leg := hleg ▸ .crashed hnone
    exact Or.inl hcrashed
  | tallying => exact Or.inr rfl

theorem afterWork_of_ne (h : result ≠ .ok .completed) : Run.afterWork result = .closing result := by
  unfold Run.afterWork
  split
  · exact absurd rfl h
  · rfl

theorem atRest_worked (ht : total ≠ 0) (units : List WorkUnit) (result : Result) (s : World σ) :
    AtRest (worked w total units result) s := by
  constructor
  · intro stage hmem
    simp at hmem
  · intro hmem
    simp [Ne.symm ht] at hmem

theorem Story.stop (h : Concluded w c.settings.hooksWhenEmpty events (.error e)) (hrest : AtRest events s) :
    Story w c events (r.fail e) s := .finishing .closing h hrest

theorem Story.hook (hw : w.Lawful Undisturbed) {next : Leg} (hl : r.leg = .hooking stage next)
    (hpassed : ∀ s' : World σ, Undisturbed s.panel s'.panel →
      Story w c (events ++ ran w [stage]) (r.go next) s')
    (hfailed : ∀ (s' : World σ) (e : JobError), Undisturbed s.panel s'.panel → w.hasHook stage →
      Concluded w c.settings.hooksWhenEmpty (events ++ [.hooked stage false]) (.error e) ∧
        AtRest (events ++ [.hooked stage false]) s') :
    Story w c (events ++ r.acts w c s) (r.runHook w stage next s).1 (r.runHook w stage next s).2 := by
  obtain ⟨s', hs, ⟨heq, htold⟩ | ⟨hhook, e, heq, htold⟩⟩ := runHook_told (c := c) hw .refl hl s
  · rw [heq, htold]
    exact hpassed s' hs
  · rw [heq, htold]
    obtain ⟨hend, hrest⟩ := hfailed s' e hs hhook
    exact .stop hend hrest

theorem Story.openSource (hw : w.Lawful Undisturbed) (hl : r.leg = .opening) (hnone : s.panel.pool = none) :
    Story w c (r.acts w c s) (r.openSource w c.vars s).1 (r.openSource w c.vars s).2 := by
  have hact := hw.openSource s
  have hacts : r.acts w c s = (if (w.openSource s).1.isOk then
      [Event.opened (w.total (w.openSource s).2)] else []) := by
    simp only [Run.acts, Run.calls, hl]
    split <;> rfl
  rw [hacts, Run.openSource]
  cases ha : w.openSource s with
  | mk answer s' =>
    rw [ha] at hact
    cases answer with
    | error text => exact .stop (.unopened _) (atRest_of_none _ (hact.noPool hnone))
    | ok u => exact .opened rfl rfl

theorem Story.wind (ht : total ≠ 0) {units : List WorkUnit} {r' : Run}
    (h : Winding w c.settings result r'.leg ∨ r'.leg = Run.afterWork result) :
    Story w c (worked w total units result) r' s := by
  rcases h with hl | hl
  · exact .winding ht hl units rfl
  · by_cases hr : result = .ok .completed
    · subst hr
      exact .after ht hl units rfl
    · rw [afterWork_of_ne hr] at hl
      exact .finishing (hl ▸ .closing) (.broken ht units hr) (atRest_worked ht units result s)

theorem Story.windUnwatched (ht : total ≠ 0) {e : JobError} {r' : Run}
    (h : Winding w c.settings (.error e) r'.leg ∨ r'.leg = Run.afterWork (.error e)) :
    Story w c (readied w total) r' s := by
  rcases h with hl | hl
  · exact .unwatched ht hl rfl
  · have hclosing : Finishing (.error e) r'.leg := hl ▸ .closing
    refine .finishing hclosing (.unstaffed ht e) ⟨fun stage hmem => ?_, fun hmem => ?_⟩
    · simp at hmem
    · simp [Ne.symm ht] at hmem

theorem Story.pump (ht : total ≠ 0) (hl : r.leg = .pumping) {units : List WorkUnit} (more : List WorkUnit)
    (s : World σ) :
    Story w c (readied w total ++ units.map .submitted ++ (more.map .submitted ++ r.acts w c s))
      (r.pumpOn w c.settings s).1 (r.pumpOn w c.settings s).2 := by
  have hacts : r.acts w c s = ((r.pump.step w c.settings r.request s).1.map Event.pumped).toList := by
    rw [Run.acts, hl]
  rw [hacts, Run.pumpOn]
  cases hstep : r.pump.step w c.settings r.request s with
  | mk ended rest =>
    cases ended with
    | none => exact .pumping ht hl (units ++ more) (by simp)
    | some result => exact .winding ht .dismissing (units ++ more) (by simp [worked])

theorem Story.of_pumping (h : Story w c events r s) (hl : r.leg = .pumping) :
    ∃ (total : Nat) (units : List WorkUnit), total ≠ 0 ∧ events = readied w total ++ units.map .submitted := by
  cases h with
  | pumping ht hl' units he => exact ⟨_, units, ht, he⟩
  | unopened hl' _ =>
    rw [hl] at hl'
    rcases hl' with hl' | hl' <;> cases hl'
  | opened hl' _ | weighing hl' _ | beginning _ hl' _ | readying _ hl' _ | winding _ hl' _ _ | unwatched _ hl' _
  | emptyBefore _ _ hl' _ | emptyAfter _ _ hl' _ | after _ hl' _ _ | finishing hl' _ _ | reporting hl' _ _ _
  | done hl' _ _ _ _ _ =>
    rw [hl] at hl'
    cases hl'

theorem acts_of_winding (hl : Winding w c.settings result r.leg) (s : World σ) : r.acts w c s = [] := by
  rw [Run.acts, Run.calls]
  generalize r.leg = leg at hl
  cases hl <;> rfl

theorem atRest_of_silent {s : World σ} (hfailed : ∀ stage, .hooked stage false ∉ events)
    (hempty : .opened 0 ∉ events) : AtRest events s :=
  ⟨fun stage hmem => absurd hmem (hfailed stage), fun hmem => absurd hmem hempty⟩

theorem Story.lastHook (hw : w.Lawful Undisturbed) (hcourse : Course c False raw r s) (ht : total ≠ 0)
    (hl : r.leg = .hooking .postBatch (.closing (.ok .completed))) (units : List WorkUnit) :
    Story w c (worked w total units (.ok .completed) ++ r.acts w c s)
      (r.runHook w .postBatch (.closing (.ok .completed)) s).1
      (r.runHook w .postBatch (.closing (.ok .completed)) s).2 := by
  have hlate : Late (.ok .completed) r.leg := hl ▸ .hooking .postBatch .closing
  have hquiet := hcourse.quiet hlate
  refine Story.hook hw hl (fun s' hs => ?_) fun s' e hs hhook => ⟨.postBatchFailed ht units e hhook, ?_⟩
  · refine .finishing .closing (.completed ht units) (atRest_of_silent (fun stage => ?_) ?_)
    · simp
    · simp [Ne.symm ht]
  · refine ⟨fun stage _ => hquiet.stirred hs.toStirred, fun hmem => ?_⟩
    simp [Ne.symm ht] at hmem

theorem Story.finish (hw : w.Lawful Undisturbed) (hcourse : Course c False raw r (w.meanwhile r.moment s))
    (hl : Finishing result r.leg) (h : Concluded w c.settings.hooksWhenEmpty events result)
    (hrest : AtRest events (w.meanwhile r.moment s)) :
    Story w c events (r.step w c s).1 (r.step w c s).2 := by
  rw [Run.step]
  generalize w.meanwhile r.moment s = s at hcourse hrest ⊢
  generalize hleg : r.leg = leg at hl ⊢
  cases hl with
  | closing =>
    have hs := lawful_close hw (fun _ _ _ => Undisturbed.trans) r.pump.queue s
    exact .finishing .ending h (hrest.stirred hs.toStirred)
  | ending =>
    have hlate : Late result r.leg := hleg ▸ .ending
    have hphase := phase_moved (hcourse.ended hlate).2 (Run.isFinal_phaseOf result)
    exact .reporting rfl h ⟨hrest.quiet, hrest.noPool⟩ hphase

theorem Story.calm (hw : w.Lawful Undisturbed) (hcourse : Course c False raw r (w.meanwhile r.moment s))
    (hl : r.leg ≠ .pumping) (h : Story w c events r (w.meanwhile r.moment s)) :
    Story w c (events ++ r.acts w c (w.meanwhile r.moment s)) (r.step w c s).1 (r.step w c s).2 := by
  -- One case for each point of the story, those of the pumping and the hooks by their own lemmas.
  cases h with
  | unopened hl he =>
    subst he
    rcases hl with hl | hl
    · simp only [Run.acts, Run.calls, Run.step, hl, List.filterMap_nil, List.append_nil]
      exact .unopened (Or.inr rfl) rfl
    · have hnone := (hcourse.unstaffed (hl ▸ .opening)).pool
      simp only [List.nil_append, Run.step, hl]
      exact .openSource hw hl hnone
  | opened hl he =>
    subst he
    have hnone := (hcourse.unstaffed (hl ▸ .hooking .init .weighing)).pool
    simp only [Run.step, hl]
    refine Story.hook hw hl (fun s' hs => .weighing rfl ?_) fun s' e hs hhook =>
      ⟨.initFailed _ e hhook, atRest_of_none _ (hs.noPool hnone)⟩
    have htotal : s'.state.total = (w.meanwhile r.moment s).state.total := hs.total
    rw [htotal]
    rfl
  | weighing hl he =>
    subst he
    have hnone := (hcourse.unstaffed (hl ▸ .weighing)).pool
    simp only [Run.acts, Run.calls, Run.step, hl, List.filterMap_nil, List.append_nil]
    exact .weigh hnone r
  | beginning ht hl he =>
    subst he
    have hnone := (hcourse.unstaffed (hl ▸ .hooking .preBatch .launching)).pool
    simp only [Run.step, hl]
    exact Story.hook hw hl (fun s' hs => .readying ht .launching (prologue_ran _)) fun s' e hs hhook =>
      ⟨.preBatchFailed (Or.inl ht) e hhook, atRest_of_none _ (hs.noPool hnone)⟩
  | readying ht hl' he =>
    subst he
    exact .ready hcourse ht hl'
  | pumping _ hl' _ _ => exact absurd hl' hl
  | winding ht hl units he =>
    rw [acts_of_winding hl, List.append_nil, he]
    exact .wind ht (winding_step hl)
  | unwatched ht hl he =>
    rw [acts_of_winding hl, List.append_nil, he]
    exact .windUnwatched ht (winding_step hl)
  | emptyBefore hc hnone hl he =>
    subst he
    simp only [Run.step, hl]
    exact Story.hook hw hl (fun s' hs => .emptyAfter hc (hs.noPool hnone) rfl (prologue_ran 0))
      fun s' e hs hhook => ⟨.preBatchFailed (Or.inr hc) e hhook, atRest_of_none _ (hs.noPool hnone)⟩
  | emptyAfter hc hnone hl he =>
    subst he
    simp only [Run.step, hl]
    exact Story.hook hw hl
      (fun s' hs => .finishing .closing (.hooksOnly hc) (atRest_of_none _ (hs.noPool hnone)))
      fun s' e hs hhook => ⟨.hooksOnlyFailed hc e hhook, atRest_of_none _ (hs.noPool hnone)⟩
  | after ht hl units he =>
    subst he
    simp only [Run.step, hl]
    exact .lastHook hw hcourse ht hl units
  | finishing hl h hrest =>
    have hacts : r.acts w c (w.meanwhile r.moment s) = [] := by
      rw [Run.acts, Run.calls]
      generalize r.leg = leg at hl
      cases hl <;> rfl
    rw [hacts, List.append_nil]
    exact .finish hw hcourse hl h hrest
  | reporting hl h hrest hphase =>
    simp only [Run.acts, Run.calls, Run.step, Run.file, hl, List.filterMap_nil, List.append_nil]
    exact .done rfl h ⟨hrest.quiet, hrest.noPool⟩ hphase rfl hphase
  | done hl h hrest hphase hreport htold =>
    simp only [Run.acts, Run.calls, Run.step, hl, List.filterMap_nil, List.append_nil]
    exact .done hl h hrest hphase hreport htold

/-- Others act, the run makes its step, and this is told. -/
theorem Story.step (hw : w.Lawful Undisturbed) (hcourse : Course c False raw r s) (h : Story w c events r s) :
    Story w c (events ++ r.tells w c s) (r.step w c s).1 (r.step w c s).2 := by
  have hact := hw.meanwhile r.moment s
  have hlawful : w.Lawful (Stirred False) := hw.mono fun _ _ => Undisturbed.toStirred
  by_cases hl : r.leg = .pumping
  · obtain ⟨total, units, ht, rfl⟩ := (h.undisturbed hact).of_pumping hl
    simp only [Run.tells, Run.step, hl]
    exact .pump ht hl _ _
  · rw [tells_of_ne hlawful hcourse hl]
    exact (h.undisturbed hact).calm hw (hcourse.stirred hact.toStirred) hl

theorem Story.steps (hw : w.Lawful Undisturbed) (hc : 0 < c.settings.batchSize) (hqueue : c.queue.Holds [])
    (n : Nat) (log : List Call) (hcourse : Course c False raw r s) (h : Story w c events r s) :
    Story w c (events ++ Run.told w c n r (s.noting log)) (Run.steps w c n r s).1 (Run.steps w c n r s).2 := by
  induction n generalizing raw events r s log with
  | zero =>
    rw [Run.told, List.append_nil]
    exact h
  | succ n ih =>
    by_cases hover : r.isOver
    · rw [Run.told, if_pos hover, List.append_nil, Run.steps_of_isOver hover]
      exact h
    · have hstep := h.step hw hcourse
      rw [← news_step w c r s log] at hstep
      rw [Run.told, if_neg hover, Run.steps_succ hover, ← List.append_assoc]
      simp only [Run.step_recorded] at hstep ⊢
      exact ih _ (hcourse.step (hw.mono fun _ _ => Undisturbed.toStirred) hc hqueue fun h => h.elim) hstep

end BatchJob.Job
