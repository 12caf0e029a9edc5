import BatchJob.Proofs.Job.Balance

/-! What can be told of a run: that its source was opened, that a hook ran, that a unit was submitted, and how the
pumping ended. Units are submitted while the pumping goes on and at no other time, whoever acts. -/
namespace BatchJob.Job
open Worker Queue Control

inductive Event where
  | opened (total : Nat)
  | hooked (stage : Stage) (succeeded : Bool)
  | submitted (unit : WorkUnit)
  | pumped (result : Result)
  deriving DecidableEq

/-- Nothing is told of what the source yields. -/
def Call.event? : Call → Option Event
  | .opened total => some (.opened total)
  | .hooked stage succeeded => some (.hooked stage succeeded)
  | .pulled _ => none

/-- The hooks that ran, in order. -/
def Event.hooks (events : List Event) : List Stage :=
  events.filterMap fun
    | .hooked stage _ => some stage
    | _ => none

variable {σ : Type} {w : Surroundings σ} {c : Ready} {raw : List String} {events : List Event}
variable {r : Run} {q q' : Pool} {s s' : World σ} {result : Result}

def World.units (s : World σ) : List WorkUnit := (s.panel.pool.map (·.units)).getD []

theorem units_of_none (h : s.panel.pool = none) : s.units = [] := by simp [World.units, h]

theorem units_of_some (h : s.panel.pool = some q) : s.units = q.units := by simp [World.units, h]

@[simp] theorem units_onState (s : World σ) (f : State → State) : (s.onState f).units = s.units := rfl

@[simp] theorem units_move (s : World σ) (phase : Phase) : (s.move phase).units = s.units := rfl

def Surroundings.hasHook (w : Surroundings σ) (stage : Stage) : Bool := (w.hook stage).isSome

/-- The result of the pumping, where it ended between these legs. -/
def Leg.pumped? : Leg → Leg → Option Result
  | .pumping, .dismissing result => some result
  | _, _ => none

/-- What is told of a step that led from one run to another: the pool has more units, the record has more calls, or
the pumping has ended. -/
def news (r r' : Run) (s s' : World (σ × List Call)) : List Event :=
  (s'.units.drop s.units.length).map .submitted ++ ((s'.log.drop s.log.length).filterMap Call.event? ++
    ((r.leg.pumped? r'.leg).map .pumped).toList)

/-- What is told of a run of `n` steps of which a record is kept. -/
def Run.told (w : Surroundings σ) (c : Ready) : Nat → Run → World (σ × List Call) → List Event
  | 0, _, _ => []
  | n + 1, r, s =>
    if r.isOver then []
    else
      let (r', s') := r.step w.recorded c s
      news r r' s s' ++ told w c n r' s'

/-- What the run does on its own in its next step. -/
def Run.acts (w : Surroundings σ) (c : Ready) (r : Run) (s : World σ) : List Event :=
  match r.leg with
  | .pumping => ((r.pump.step w c.settings r.request s).1.map .pumped).toList
  | _ => (r.calls w s).filterMap Call.event?

/-- And what is told of it, with the units that were submitted. -/
def Run.tells (w : Surroundings σ) (c : Ready) (r : Run) (s : World σ) : List Event :=
  ((r.step w c s).2.units.drop s.units.length).map .submitted ++ r.acts w c (w.meanwhile r.moment s)

theorem pumped?_of_ne {leg : Leg} (h : leg ≠ .pumping) (next : Leg) : leg.pumped? next = none := by
  cases leg <;> first | rfl | exact absurd rfl h

theorem event?_asks (p : Pump) (s : World σ) : (p.asks w s).filterMap Call.event? = [] := by
  rw [Pump.asks]
  split <;> rfl

theorem pumped?_pumpOn (hl : r.leg = .pumping) (s : World σ) :
    r.leg.pumped? (r.pumpOn w c.settings s).1.leg = (r.pump.step w c.settings r.request s).1 := by
  rw [Run.pumpOn]
  cases r.pump.step w c.settings r.request s with
  | mk result rest =>
    obtain ⟨p, s'⟩ := rest
    cases result with
    | none => simp [hl, Leg.pumped?]
    | some result => simp [hl, Leg.pumped?]

/-- The news of a step are what the run does in it. -/
theorem news_step (w : Surroundings σ) (c : Ready) (r : Run) (s : World σ) (log : List Call) :
    news r (r.step w.recorded c (s.noting log)).1 (s.noting log) (r.step w.recorded c (s.noting log)).2 =
      r.tells w c s := by
  have hacts : (r.calls w (w.meanwhile r.moment s)).filterMap Call.event? ++
      ((r.leg.pumped? (r.step w c s).1.leg).map Event.pumped).toList = r.acts w c (w.meanwhile r.moment s) := by
    by_cases hl : r.leg = .pumping
    · have hstep : r.step w c s = r.pumpOn w c.settings (w.meanwhile r.moment s) := by simp [Run.step, hl]
      rw [hstep, pumped?_pumpOn hl]
      simp [Run.calls, Run.acts, hl, event?_asks]
    · rw [pumped?_of_ne hl, Run.acts]
      · simp
  have hunits : ∀ s : World σ, ∀ log, (s.noting log).units = s.units := fun _ _ => rfl
  rw [Run.step_recorded]
  simp only [news, Run.noting, Run.tells, hunits, World.log_noting, List.drop_left, hacts]

theorem Course.sound (h : Course c False raw r s) (hq : s.panel.pool = some q) : ∃ journal, q.Sound journal := by
  cases h with
  | early hl hraw h =>
    rw [h.pool] at hq
    cases hq
  | pumping hl h =>
    obtain ⟨⟨q', sent, waiting, hq', hf, -⟩, -⟩ := h
    obtain rfl := Option.some.inj (hq.symm.trans hq')
    obtain ⟨journal, hj⟩ := hf.orderly
    exact ⟨journal, hj.sound⟩
  | late hl h hphase | last hl h hphase =>
    obtain ⟨journal, hj⟩ := (h.pool q hq).orderly
    exact ⟨journal, hj.sound⟩

theorem Course.units_stirred (h : Course c False raw r s) (hs : Stirred False s.panel s'.panel) :
    s'.units = s.units := by
  cases hq : s.panel.pool with
  | none => rw [units_of_none hq, units_of_none (hs.noPool hq)]
  | some q =>
    obtain ⟨q', k, hq', hl⟩ := hs.pool q hq
    obtain ⟨journal, hj⟩ := h.sound hq
    rw [units_of_some hq, units_of_some hq', (hj.serves_leads (fun _ => internal_of_others) hl).units]

theorem units_onPool {f : Pool → Pool} (hf : ∀ q, (f q).units = q.units) : (s.onPool f).units = s.units := by
  cases hq : s.panel.pool with
  | none => simp [World.units, World.onPool, Panel.onPool, hq]
  | some q => simp [World.units, World.onPool, Panel.onPool, hq, hf]

theorem units_drop? (h : s.drop? = some s') : s'.units = s.units := by
  obtain ⟨q, q', hq, hdrop, rfl⟩ := drop?_eq_some h
  rw [units_of_some hq, units_of_some (pool_setPool hq q')]
  unfold Pool.drop? at hdrop
  split at hdrop
  · cases hdrop
  · cases hdrop
    exact map_unit_setReplyAt _ _ _

theorem units_tallyAll (result : Result) (s : World σ) : (Run.tallyAll result s).units = s.units := by
  cases hq : s.panel.pool with
  | some q => simp [World.units, tallyAll_eq hq, hq, Pool.units]
  | none =>
    have hpool : (Run.tallyAll result s).panel.pool = none := by
      rw [tallyAll_none hq]
      unfold Run.noteDiscarded
      split <;> exact hq
    rw [units_of_none hq, units_of_none hpool]

theorem units_close (q : Pool) : q.close.units = q.units := by
  rw [Pool.close]
  split <;> rfl

theorem units_staff (h : s.panel.pool = none) : (r.staff w c.settings s).2.units = [] := by
  rw [Run.staff]
  cases hq : Pool.create c.settings.workers with
  | error e => exact units_of_none h
  | ok q =>
    have horderly : q.Orderly False [] := Pool.orderly_create hq fun h => h.elim
    have hcatch : Pool.Leads (Others False) q [] (Panel.catchUp s.state q) := leads_catchUp fun h => h.elim
    have hunits : (Panel.catchUp s.state q).units = [] := by
      rw [(leads_others horderly hcatch).2.units, Pool.units, (Pool.idle_create hq).1, List.map_nil]
    have hattached : World.units ⟨s.panel.attach q, s.rest⟩ = [] := by
      rw [units_of_some (q := Panel.catchUp s.state q) rfl, hunits]
    simp only
    split <;> exact hattached

theorem Unstaffed.units_step (hw : w.Lawful (Stirred False)) (hl : Early r.leg)
    (h : Unstaffed False c.queue r.pump (w.meanwhile r.moment s)) : (r.step w c s).2.units = [] := by
  rw [Run.step]
  generalize w.meanwhile r.moment s = s at h ⊢
  generalize r.leg = leg at hl ⊢
  have hnone := h.pool
  cases hl with
  | starting => exact units_of_none hnone
  | opening =>
    have hact := hw.openSource s
    simp only [Run.openSource]
    cases ha : w.openSource s with
    | mk answer s' =>
      rw [ha] at hact
      cases answer <;> exact units_of_none (hact.noPool hnone)
  | @hooking stage next hnext =>
    obtain ⟨s', hs, heq | ⟨e, heq⟩⟩ := runHook_cases hw .refl stage next r s
    · simp only [heq]
      exact units_of_none (hs.noPool hnone)
    · simp only [heq]
      exact units_of_none (hs.noPool hnone)
  | weighing => exact units_of_none hnone
  | launching => exact units_of_none hnone
  | launched =>
    simp only
    split <;> exact units_of_none hnone
  | staffing => exact units_staff hnone

theorem Course.units_late (hw : w.Lawful (Stirred False)) (h : Course c False raw r (w.meanwhile r.moment s))
    (hl : Late result r.leg) : (r.step w c s).2.units = (w.meanwhile r.moment s).units := by
  rw [Run.step]
  generalize w.meanwhile r.moment s = s at h ⊢
  generalize r.leg = leg at hl ⊢
  cases hl with
  | dismissing =>
    simp only [Run.dismiss]
    split
    · rfl
    · exact units_onPool fun q => rfl
  | emptying =>
    simp only [Run.empty]
    cases hd : s.drop? with
    | none => rfl
    | some s' => exact units_drop? hd
  | shutting =>
    simp only [Run.shut]
    split <;> exact units_onPool units_close
  | crashed => rfl
  | tallying => exact units_tallyAll result s
  | @hooking stage next hnext =>
    obtain ⟨s', hs, heq | ⟨e, heq⟩⟩ := runHook_cases hw .refl stage next r s
    · simp only [heq]
      exact h.units_stirred hs
    · simp only [heq]
      exact h.units_stirred hs
  | closing => exact h.units_stirred (lawful_close hw (fun _ _ _ => Stirred.trans) r.pump.queue s)
  | ending => rfl

/-- Only the machine that feeds the pool submits units to it. -/
theorem Course.units_step (hw : w.Lawful (Stirred False)) (h : Course c False raw r s) (hl : r.leg ≠ .pumping) :
    (r.step w c s).2.units = s.units := by
  have hact := hw.meanwhile r.moment s
  rw [← h.units_stirred hact]
  cases h.stirred hact with
  | early hl hraw h => rw [h.units_step hw hl, units_of_none h.pool]
  | pumping hp h => exact absurd hp hl
  | late hl h hphase => exact Course.units_late hw (.late hl h hphase) hl
  | last hl h hphase =>
    rw [Run.step]
    generalize r.leg = leg at hl ⊢
    cases hl <;> rfl

theorem tells_of_ne (hw : w.Lawful (Stirred False)) (h : Course c False raw r s) (hl : r.leg ≠ .pumping) :
    r.tells w c s = r.acts w c (w.meanwhile r.moment s) := by
  rw [Run.tells, h.units_step hw hl, List.drop_length, List.map_nil, List.nil_append]

/-- There is no pool, or nothing waits there and nothing is at work. -/
def World.Quiet (s : World σ) : Prop := ∀ q, s.panel.pool = some q → (∃ journal, q.Sound journal) ∧ q.Idle

theorem quiet_of_none (h : s.panel.pool = none) : s.Quiet := by
  intro q hq
  rw [h] at hq
  cases hq

theorem World.Quiet.stirred (h : s.Quiet) (hs : Stirred False s.panel s'.panel) : s'.Quiet := by
  intro q' hq'
  cases hq : s.panel.pool with
  | none =>
    rw [hs.noPool hq] at hq'
    cases hq'
  | some q =>
    obtain ⟨⟨journal, hj⟩, hidle⟩ := h q hq
    obtain ⟨q₁, k, hq₁, hl⟩ := hs.pool q hq
    obtain rfl := Option.some.inj (hq₁.symm.trans hq')
    exact ⟨⟨_, hj.leads hl⟩, (hidle.leads hj (fun _ => internal_of_others) hl).1⟩

theorem Course.quiet (h : Course c False raw r s) (hl : Late (.ok .completed) r.leg) : s.Quiet := by
  obtain ⟨hended, -⟩ := h.ended hl
  rcases hended.whole rfl with ⟨-, hnone⟩ | ⟨-, q, hq, hwhole, -⟩
  · exact quiet_of_none hnone
  · intro q' hq'
    obtain rfl := Option.some.inj (hq.symm.trans hq')
    obtain ⟨journal, hj⟩ := h.sound hq
    exact ⟨⟨journal, hj⟩, (hj.idle_of_whole hwhole.completions).1⟩

end BatchJob.Job
