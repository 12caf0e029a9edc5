import BatchJob.Job.Run

/-! A run of which a record is kept. Its surroundings write down what they are called for, and what came of it, inside
the call; nothing else is changed by that, and so the record tells what a run without one was given. -/
namespace BatchJob.Job
open Worker Queue Control

/-- What the surroundings were called for, with what came of it. -/
inductive Call where
  | opened (total : Nat)
  | pulled (answer : Except String (Option String))
  | hooked (stage : Stage) (succeeded : Bool)

def Call.identifier? : Call → Option String
  | .pulled (.ok identifier) => identifier
  | _ => none

def pulled (log : List Call) : List String := log.filterMap Call.identifier?

def exhausted (log : List Call) : Prop := .pulled (.ok none) ∈ log

@[simp] theorem pulled_nil : pulled [] = [] := rfl

@[simp] theorem pulled_append (log calls : List Call) : pulled (log ++ calls) = pulled log ++ pulled calls :=
  List.filterMap_append

@[simp] theorem exhausted_append {log calls : List Call} :
    exhausted (log ++ calls) ↔ exhausted log ∨ exhausted calls := List.mem_append

variable {σ : Type}

namespace World

/-- The world with a record beside it, the oldest call first. -/
def noting (s : World σ) (log : List Call) : World (σ × List Call) := ⟨s.panel, s.rest, log⟩

def bare (s : World (σ × List Call)) : World σ := ⟨s.panel, s.rest.1⟩

def log (s : World (σ × List Call)) : List Call := s.rest.2

@[simp] theorem bare_noting (s : World σ) (log : List Call) : (s.noting log).bare = s := rfl

@[simp] theorem log_noting (s : World σ) (log : List Call) : (s.noting log).log = log := rfl

@[simp] theorem panel_noting (s : World σ) (log : List Call) : (s.noting log).panel = s.panel := rfl

@[simp] theorem state_noting (s : World σ) (log : List Call) : (s.noting log).state = s.state := rfl

end World

/-- The same surroundings, which keep a record of the calls. -/
def Surroundings.recorded (w : Surroundings σ) : Surroundings (σ × List Call) where
  now s := w.now s.bare
  openSource s :=
    let (answer, t) := w.openSource s.bare
    (answer, t.noting (s.log ++ if answer.isOk then [.opened (w.total t)] else []))
  total s := w.total s.bare
  batchRef s := w.batchRef s.bare
  next s :=
    let (answer, t) := w.next s.bare
    (answer, t.noting (s.log ++ [.pulled answer]))
  closeSource s := (w.closeSource s.bare).noting s.log
  hook stage := (w.hook stage).map fun hook o s =>
    let (answer, t) := hook o s.bare
    (answer, t.noting (s.log ++ [.hooked stage answer.isOk]))
  closeEndpoints s := (w.closeEndpoints s.bare).noting s.log
  disk s := w.disk s.bare
  keep isOpen s := (w.keep isOpen s.bare).noting s.log
  meanwhile m s := (w.meanwhile m s.bare).noting s.log
  threadProblem? name s := w.threadProblem? name s.bare
  uptime s := w.uptime s.bare

/-- What a step of the machine that feeds the pool asks of the source. -/
def Pump.asks (w : Surroundings σ) (p : Pump) (s : World σ) : List Call :=
  if p.point = .staging ∧ ¬(p.sourceDone ∨ Pump.chunk ≤ p.staged ∨ p.queue.isFull) then [.pulled (w.next s).1]
  else []

/-- What the next step of a run calls its surroundings for, after others have acted. -/
def Run.calls (w : Surroundings σ) (r : Run) (s : World σ) : List Call :=
  match r.leg with
  | .opening => if (w.openSource s).1.isOk then [.opened (w.total (w.openSource s).2)] else []
  | .hooking stage _ =>
    ((w.hook stage).map fun hook => .hooked stage (hook ⟨stage, s.state.total, r.request⟩ s).1.isOk).toList
  | .pumping => r.pump.asks w s
  | _ => []

def Step.noting (x : Step σ) (log : List Call) : Step (σ × List Call) := (x.1, x.2.1, x.2.2.noting log)

variable {w : Surroundings σ} {c : Settings} {request : Work.Request} {log : List Call}
variable {p : Pump} {r : Run} {s : World σ}

theorem receive_noting (s : World σ) (log : List Call) :
    (s.noting log).receive = (s.receive.1, s.receive.2.noting log) := by
  unfold World.receive
  cases h : s.panel.pool with
  | none => simp only [World.panel_noting, h]
  | some q =>
    simp only [World.panel_noting, h]
    rfl

theorem submit_noting (s : World σ) (unit : WorkUnit) (log : List Call) :
    (s.noting log).submit unit = ((s.submit unit).1, (s.submit unit).2.noting log) := by
  unfold World.submit
  cases h : s.panel.pool with
  | none => simp only [World.panel_noting, h]
  | some q =>
    simp only [World.panel_noting, h]
    rfl

theorem giveUp?_noting (s : World σ) (serial : Nat) (log : List Call) :
    (s.noting log).giveUp? serial = (s.giveUp? serial).map (·.noting log) := by
  simp only [World.giveUp?, World.panel_noting, Option.map_map]
  rfl

theorem drop?_noting (s : World σ) (log : List Call) : (s.noting log).drop? = s.drop?.map (·.noting log) := by
  simp only [World.drop?, World.panel_noting, Option.map_map]
  rfl

theorem Step.noting_ite {b : Prop} [Decidable b] (x y : Step σ) (log : List Call) :
    Step.noting (if b then x else y) log = if b then Step.noting x log else Step.noting y log :=
  apply_ite (Step.noting · log) b x y

namespace Pump

theorem record_noting (c : Settings) (p : Pump) (done : Completed) (s : World σ) (log : List Call) :
    p.record c done (s.noting log) = Step.noting (p.record c done s) log := by
  simp only [record]
  cases fatalOutcome? c.failOnError done <;> rfl

theorem collect_noting (c : Settings) (p : Pump) (s : World σ) (log : List Call) :
    p.collect c (s.noting log) = Step.noting (p.collect c s) log := by
  simp only [collect, receive_noting]
  cases hr : s.receive with
  | mk done s' =>
    cases done with
    | some done => exact record_noting c p done s' log
    | none =>
      simp only [Step.noting_ite]
      rfl

theorem offer_recorded (w : Surroundings σ) (p : Pump) (x : String) (s : World σ) (log : List Call) :
    p.offer w.recorded x (s.noting log) = Step.noting (p.offer w x s) log := by
  simp only [offer]
  cases hr : (p.queue.offer x (w.disk s)).1 with
  | error e => simp [Surroundings.recorded, hr, Step.noting, fail]
  | ok taken => cases taken <;> simp [Surroundings.recorded, hr, Step.noting, fail, goOn]

theorem stage_recorded (w : Surroundings σ) (c : Settings) (hp : p.point = .staging) (s : World σ) (log : List Call) :
    p.stage w.recorded c (s.noting log) = Step.noting (p.stage w c s) (log ++ p.asks w s) := by
  simp only [stage, asks, hp, true_and]
  split
  · rw [List.append_nil]
    rfl
  · have hnext : w.recorded.next (s.noting log) =
      ((w.next s).1, (w.next s).2.noting (log ++ [.pulled (w.next s).1])) := rfl
    rw [hnext]
    cases hn : w.next s with
    | mk answer s' =>
      rcases answer with e | _ | x
      · rfl
      · rfl
      · simp only [Step.noting_ite, offer_recorded]
        rfl

theorem refused_noting (p : Pump) (s : World σ) (e : PoolError) (log : List Call) :
    p.refused (s.noting log) e = Step.noting (p.refused s e) log := by
  simp only [refused, Step.noting_ite]
  rfl

theorem submit_noting (c : Settings) (request : Work.Request) (limit : Nat) (p : Pump) (s : World σ)
    (log : List Call) : p.submit c request limit (s.noting log) = Step.noting (p.submit c request limit s) log := by
  simp only [submit, Job.submit_noting]
  cases hs : s.submit (.batch p.units p.batch c.batchDelimiter request) with
  | mk answer s' =>
    cases answer with
    | error e => exact refused_noting _ s' e log
    | ok serial =>
      simp only [Step.noting_ite]
      rfl

theorem fill_recorded (w : Surroundings σ) (c : Settings) (request : Work.Request) (limit : Nat) (p : Pump)
    (s : World σ) (log : List Call) :
    p.fill w.recorded c request limit (s.noting log) = Step.noting (p.fill w c request limit s) log := by
  simp only [fill, Step.noting_ite, submit_noting]
  have hdisk : w.recorded.disk (s.noting log) = w.disk s := rfl
  have hkeep : w.recorded.keep (p.queue.poll (w.disk s)).2.isOpen (s.noting log) =
    (w.keep (p.queue.poll (w.disk s)).2.isOpen s).noting log := rfl
  rw [hdisk, hkeep]
  rcases (p.queue.poll (w.disk s)).1 with e | _ | x
  · rfl
  · simp only [Step.noting_ite, submit_noting]
    rfl
  · rfl

theorem send_noting (limit serial : Nat) (p : Pump) (s : World σ) (log : List Call) :
    p.send limit serial (s.noting log) = Step.noting (p.send limit serial s) log := by
  simp only [send, Step.noting_ite, refused_noting, giveUp?_noting]
  cases s.giveUp? serial <;> rfl

theorem conclude_noting (p : Pump) (s : World σ) (log : List Call) :
    p.conclude (s.noting log) = Step.noting (p.conclude s) log := by
  simp only [conclude, Step.noting_ite]
  rfl

theorem wait_noting (c : Settings) (p : Pump) (s : World σ) (log : List Call) :
    p.wait c (s.noting log) = Step.noting (p.wait c s) log := by
  simp only [wait, receive_noting]
  cases hr : s.receive with
  | mk done s' =>
    cases done with
    | some done => exact record_noting c p done s' log
    | none =>
      simp only [Step.noting_ite]
      rfl

theorem asks_of_ne (hp : p.point ≠ .staging) (s : World σ) : p.asks w s = [] := if_neg fun h => hp h.1

theorem step_recorded (w : Surroundings σ) (c : Settings) (request : Work.Request) (p : Pump) (s : World σ)
    (log : List Call) :
    p.step w.recorded c request (s.noting log) = Step.noting (p.step w c request s) (log ++ p.asks w s) := by
  have hquiet : p.point ≠ .staging → log ++ p.asks w s = log := fun hp => by
    rw [asks_of_ne hp, List.append_nil]
  simp only [step]
  cases hp : p.point with
  | collecting =>
    rw [hquiet (by simp [hp])]
    exact collect_noting c p s log
  | staging => exact stage_recorded w c hp s log
  | filling limit =>
    rw [hquiet (by simp [hp])]
    exact fill_recorded w c request limit p s log
  | sending limit serial =>
    rw [hquiet (by simp [hp])]
    exact send_noting limit serial p s log
  | concluding =>
    rw [hquiet (by simp [hp])]
    exact conclude_noting p s log
  | waiting =>
    rw [hquiet (by simp [hp])]
    exact wait_noting c p s log

end Pump

namespace Run

def noting (x : Run × World σ) (log : List Call) : Run × World (σ × List Call) := (x.1, x.2.noting log)

theorem noting_ite {b : Prop} [Decidable b] (x y : Run × World σ) (log : List Call) :
    noting (if b then x else y) log = if b then noting x log else noting y log := apply_ite (noting · log) b x y

theorem openSource_recorded (w : Surroundings σ) (vars : Text.Table) (hl : r.leg = .opening) (s : World σ)
    (log : List Call) :
    r.openSource w.recorded vars (s.noting log) = noting (r.openSource w vars s) (log ++ r.calls w s) := by
  have hopen : w.recorded.openSource (s.noting log) = ((w.openSource s).1, (w.openSource s).2.noting
    (log ++ if (w.openSource s).1.isOk then [.opened (w.total (w.openSource s).2)] else [])) := rfl
  simp only [openSource, calls, hl, hopen]
  cases ho : w.openSource s with
  | mk answer s' => cases answer <;> rfl

theorem runHook_recorded (w : Surroundings σ) {stage : Stage} {next : Leg} (hl : r.leg = .hooking stage next)
    (s : World σ) (log : List Call) :
    r.runHook w.recorded stage next (s.noting log) = noting (r.runHook w stage next s) (log ++ r.calls w s) := by
  simp only [runHook, calls, hl]
  cases hh : w.hook stage with
  | none =>
    have hhook : w.recorded.hook stage = none := by simp [Surroundings.recorded, hh]
    simp only [hhook, Option.map_none, Option.toList_none, List.append_nil]
    rfl
  | some hook =>
    have hhook : w.recorded.hook stage = some fun o t =>
        ((hook o t.bare).1, (hook o t.bare).2.noting (t.log ++ [.hooked stage (hook o t.bare).1.isOk])) := by
      simp [Surroundings.recorded, hh]
    simp only [hhook, Option.map_some, Option.toList_some, World.bare_noting, World.log_noting, World.state_noting]
    cases ha : hook ⟨stage, s.state.total, r.request⟩ s with
    | mk answer s' => cases answer <;> rfl

theorem staff_recorded (w : Surroundings σ) (c : Settings) (r : Run) (s : World σ) (log : List Call) :
    r.staff w.recorded c (s.noting log) = noting (r.staff w c s) log := by
  simp only [staff]
  cases hq : Pool.create c.workers with
  | error e => rfl
  | ok q =>
    have hproblem : watchProblem? w.recorded c ⟨(s.noting log).panel.attach q, (s.noting log).rest⟩ =
      watchProblem? w c ⟨s.panel.attach q, s.rest⟩ := rfl
    simp only [hproblem]
    cases watchProblem? w c ⟨s.panel.attach q, s.rest⟩ <;> rfl

theorem pumpOn_recorded (w : Surroundings σ) (c : Settings) (hl : r.leg = .pumping) (s : World σ) (log : List Call) :
    r.pumpOn w.recorded c (s.noting log) = noting (r.pumpOn w c s) (log ++ r.calls w s) := by
  have hcalls : r.calls w s = r.pump.asks w s := by rw [calls, hl]
  simp only [pumpOn, Pump.step_recorded, hcalls]
  cases hs : r.pump.step w c r.request s with
  | mk result rest =>
    obtain ⟨p', s'⟩ := rest
    cases result <;> rfl

theorem dismiss_noting (result : Result) (r : Run) (s : World σ) (log : List Call) :
    r.dismiss result (s.noting log) = noting (r.dismiss result s) log := by
  unfold dismiss
  split <;> rfl

theorem empty_noting (result : Result) (r : Run) (s : World σ) (log : List Call) :
    r.empty result (s.noting log) = noting (r.empty result s) log := by
  simp only [empty, drop?_noting]
  cases s.drop? <;> rfl

theorem shut_recorded (w : Surroundings σ) (c : Settings) (result : Result) (r : Run) (s : World σ) (log : List Call) :
    r.shut w.recorded c result (s.noting log) = noting (r.shut w c result s) log := by
  simp only [shut, noting_ite]
  rfl

theorem tallyRest_noting (n : Nat) (s : World σ) (log : List Call) :
    tallyRest n (s.noting log) = (tallyRest n s).noting log := by
  induction n generalizing s with
  | zero => rfl
  | succ n ih =>
    simp only [tallyRest, receive_noting]
    cases hr : s.receive with
    | mk done s' =>
      cases done with
      | none => rfl
      | some done => exact ih (s'.onState (tally done))

theorem tallyAll_noting (result : Result) (s : World σ) (log : List Call) :
    tallyAll result (s.noting log) = (tallyAll result s).noting log := by
  have hnote : noteDiscarded result (s.noting log) = (noteDiscarded result s).noting log := by
    unfold noteDiscarded
    split <;> rfl
  simp only [tallyAll, hnote]
  exact tallyRest_noting _ ⟨(noteDiscarded result s).panel.detach, (noteDiscarded result s).rest⟩ log

theorem step_recorded (w : Surroundings σ) (c : Ready) (r : Run) (s : World σ) (log : List Call) :
    r.step w.recorded c (s.noting log) = noting (r.step w c s) (log ++ r.calls w (w.meanwhile r.moment s)) := by
  have hmeanwhile : w.recorded.meanwhile r.moment (s.noting log) = (w.meanwhile r.moment s).noting log := rfl
  simp only [step, hmeanwhile]
  generalize w.meanwhile r.moment s = s
  have hquiet : r.calls w s = [] → log ++ r.calls w s = log := fun h => by rw [h, List.append_nil]
  cases hl : r.leg with
  | opening => exact openSource_recorded w c.vars hl s log
  | hooking stage next => exact runHook_recorded w hl s log
  | pumping => exact pumpOn_recorded w c.settings hl s log
  | staffing =>
    rw [hquiet (by simp [calls, hl])]
    exact staff_recorded w c.settings r s log
  | dismissing result =>
    rw [hquiet (by simp [calls, hl])]
    exact dismiss_noting result r s log
  | emptying result =>
    rw [hquiet (by simp [calls, hl])]
    exact empty_noting result r s log
  | shutting result =>
    rw [hquiet (by simp [calls, hl])]
    exact shut_recorded w c.settings result r s log
  | tallying result =>
    rw [hquiet (by simp [calls, hl])]
    exact Prod.ext rfl (tallyAll_noting result s log)
  | launched =>
    rw [hquiet (by simp [calls, hl])]
    exact Prod.ext rfl (apply_ite (World.noting · log) (s.state.paused = true) (s.move .paused) s).symm
  | _ =>
    rw [hquiet (by simp [calls, hl])]
    rfl

/-- What a run of `n` steps calls its surroundings for is what they record. -/
theorem steps_recorded (w : Surroundings σ) (c : Ready) (n : Nat) (r : Run) (s : World σ) (log : List Call) :
    ∃ calls, steps w.recorded c n r (s.noting log) = noting (steps w c n r s) (log ++ calls) := by
  induction n generalizing r s log with
  | zero => exact ⟨[], by rw [List.append_nil]; rfl⟩
  | succ n ih =>
    by_cases hover : r.isOver
    · exact ⟨[], by rw [steps_of_isOver hover, steps_of_isOver hover, List.append_nil]; rfl⟩
    · obtain ⟨calls, hcalls⟩ := ih (r.step w c s).1 (r.step w c s).2 (log ++ r.calls w (w.meanwhile r.moment s))
      refine ⟨r.calls w (w.meanwhile r.moment s) ++ calls, ?_⟩
      rw [steps_succ hover, steps_succ hover, step_recorded, ← List.append_assoc]
      exact hcalls

end Run
end BatchJob.Job
