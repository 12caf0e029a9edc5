import BatchJob.Proofs.Job.Advancing
import BatchJob.Proofs.Worker.Queueing
import Mathlib.Order.Monotone.Basic
import Mathlib.Order.WellFounded

/-! The machine does not go on forever. Of what there is to do each step that brings the job on leaves less, so a
machine without an end would only idle from some step on. But it cannot: a stop would end it, and without one a unit
that is out comes back, or room in the backlog is taken. -/
namespace BatchJob.Worker.Pool

variable {p q r : Pool} {k : List Entry} {allowed : Act → Prop}

/-- Nothing comes into the pool and nothing is received; what completed there is not lost. -/
structure Rests (p q : Pool) : Prop where
  discarding : p.discarding = true → q.discarding = true
  queue : ∀ t ∈ q.queue, t ∈ p.queue
  blocked : ∀ t ∈ q.blocked, t ∈ p.blocked
  completions : p.completions <+: q.completions
  received : q.received = p.received

theorem Rests.refl (p : Pool) : p.Rests p := ⟨id, fun _ => id, fun _ => id, List.prefix_refl _, rfl⟩

theorem Rests.trans (h : p.Rests q) (h' : q.Rests r) : p.Rests r where
  discarding := h'.discarding ∘ h.discarding
  queue t ht := h.queue t (h'.queue t ht)
  blocked t ht := h.blocked t (h'.blocked t ht)
  completions := h.completions.trans h'.completions
  received := h'.received.trans h.received

theorem rests_perform? {a : Act} (ha : Internal a) (h : p.perform? a = some q) : p.Rests q := by
  have hk := keeps_perform? (fun u hu => by subst hu; exact ha) h
  exact ⟨hk.discarding, hk.queue, hk.blocked, hk.completions, hk.received fun he => by subst he; exact ha⟩

theorem rests_leads (hallowed : ∀ a, allowed a → Internal a) (h : Leads allowed p k q) : p.Rests q := by
  induction h with
  | refl => exact .refl p
  | tail _ ha hr ih => exact ih.trans (rests_perform? (hallowed _ ha) hr)

theorem rests_giveUp? {serial : Nat} (h : p.giveUp? serial = some q) : p.Rests q := by
  have hk : Keeps (.giveUp serial) p q := keeps_giveUp? h
  exact ⟨hk.discarding, hk.queue, hk.blocked, hk.completions, hk.received nofun⟩

theorem isBlocked_giveUp? {serial : Nat} (h : p.giveUp? serial = some q) : q.isBlocked serial = false := by
  rw [giveUp?] at h
  split at h
  · cases h
    simp [isBlocked, unblock, count, setReply]
  · cases h

end BatchJob.Worker.Pool

namespace BatchJob.Job
open Worker Queue

variable {σ : Type}

/-- The world that the machine meets with its next step. -/
def Pump.meets (w : Surroundings σ) (p : Pump) (s : World σ) : World σ := w.meanwhile p.point.moment s

/-- Nothing was fed to the pool meanwhile. -/
def Calm (s s' : World σ) : Prop := ∀ q, s.panel.pool = some q → ∃ q', s'.panel.pool = some q' ∧ q.Rests q'

/-- The machine and its world, step after step, when it has no end. How many units may be in flight is counted in a
machine word. -/
structure Endless (w : Surroundings σ) (c : Settings) (request : Work.Request) (raw : Nat → List String)
    (p : Nat → Pump) (s : Nat → World σ) : Prop where
  working n : Working c request (raw n) (p n) (s n)
  step n : (p n).step w c request ((p n).meets w (s n)) = (none, p (n + 1), s (n + 1))
  room n : ((p n).meets w (s n)).state.threadCount + c.inFlightLimit < Text.limit64

/-- Such a machine, when all that it does is to idle. -/
structure Stuck (w : Surroundings σ) (c : Settings) (request : Work.Request) (raw : Nat → List String)
    (p : Nat → Pump) (s : Nat → World σ) : Prop extends Endless w c request raw p s where
  idles n : Idles w c (p n) ((p n).meets w (s n)) (p (n + 1)) (s (n + 1))

/-- What has to be done for the one who feeds the pool, until it is released: a unit that was let in completes, and
who waits for room is let in once there is some. -/
structure Served (released : Nat → Prop) (s : Nat → World σ) : Prop where
  completes : ∀ n q serial, (s n).panel.pool = some q → q.isAccepted serial = true →
    ∃ m, n ≤ m ∧ (released m ∨
      ∃ q', (s m).panel.pool = some q' ∧ ∃ done ∈ q'.completions, done.task.serial = serial)
  admits : ∀ n q serial, (s n).panel.pool = some q → q.isBlocked serial = true → q.hasRoom = true →
    ∃ m, n ≤ m ∧ (released m ∨ ∃ q', (s m).panel.pool = some q' ∧ q'.isBlocked serial = false)

def World.discards (s : World σ) : Prop := ∃ q, s.panel.pool = some q ∧ q.discarding = true

/-- A stop of which the machine is going to hear: the pool was told to discard, or a round begins and the stop was
requested before. -/
def Stopped (p : Pump) (s : World σ) : Prop :=
  s.discards ∨ p.point = .collecting ∧ s.state.stopRequested = true

variable {w : Surroundings σ} {c : Settings} {request : Work.Request} {s s' s'' : World σ}
variable {p p' : Pump} {q q' : Pool} {raw : List String}
variable {raws : Nat → List String} {pump : Nat → Pump} {world : Nat → World σ} {n m : Nat} {left : σ → Nat}

theorem Point.sending_of_waitsFor? {point : Point} {serial : Nat} (h : point.waitsFor? = some serial) :
    ∃ limit, point = .sending limit serial := by
  cases point <;> cases h
  exact ⟨_, rfl⟩

theorem Served.shift {released released' : Nat → Prop} (h : Served released world) {n : Nat}
    (himp : ∀ i, released (n + i) → released' i) : Served released' fun i => world (n + i) where
  completes i q serial hq ha := by
    obtain ⟨m, hm, hdone⟩ := h.completes (n + i) q serial hq ha
    obtain ⟨j, rfl⟩ := Nat.exists_eq_add_of_le (Nat.le_trans (Nat.le_add_right n i) hm)
    exact ⟨j, by omega, hdone.imp_left (himp j)⟩
  admits i q serial hq hb hroom := by
    obtain ⟨m, hm, hin⟩ := h.admits (n + i) q serial hq hb hroom
    obtain ⟨j, rfl⟩ := Nat.exists_eq_add_of_le (Nat.le_trans (Nat.le_add_right n i) hm)
    exact ⟨j, by omega, hin.imp_left (himp j)⟩

theorem Calm.refl (s : World σ) : Calm s s := fun q hq => ⟨q, hq, .refl q⟩

theorem Calm.trans (h : Calm s s') (h' : Calm s' s'') : Calm s s'' := by
  intro q hq
  obtain ⟨q₁, hq₁, hr⟩ := h q hq
  obtain ⟨q₂, hq₂, hr'⟩ := h' q₁ hq₁
  exact ⟨q₂, hq₂, hr.trans hr'⟩

theorem Calm.discards (h : Calm s s') (hd : s.discards) : s'.discards := by
  obtain ⟨q, hq, hdiscarding⟩ := hd
  obtain ⟨q', hq', hr⟩ := h q hq
  exact ⟨q', hq', hr.discarding hdiscarding⟩

theorem Heeding.calm (h : Heeding s.panel s'.panel) : Calm s s' := by
  intro q hq
  obtain ⟨q', k, hq', hl⟩ := h.pool q hq
  exact ⟨q', hq', Pool.rests_leads (fun _ => internal_of_others) hl⟩

theorem calm_setPool (hq : s.panel.pool = some q) (hr : q.Rests q') : Calm s (s.setPool q') := by
  intro q₁ hq₁
  obtain rfl := Option.some.inj (hq.symm.trans hq₁)
  exact ⟨q', pool_setPool hq q', hr⟩

theorem calm_receive (hr : s.receive = (none, s')) : Calm s s' := by
  cases hq : s.panel.pool with
  | none =>
    simp only [World.receive, hq, Prod.mk.injEq, true_and] at hr
    exact hr ▸ .refl s
  | some q =>
    obtain ⟨-, rfl⟩ := receive_eq_none hq hr
    exact calm_setPool hq (.refl q)

theorem calm_meets (hw : w.Lawful Heeding) (p : Pump) (s : World σ) : Calm s (p.meets w s) := (hw.meanwhile _ s).calm

theorem calm_giveUp? (s : World σ) (serial : Nat) : Calm s ((s.giveUp? serial).getD s) := by
  cases hg : s.giveUp? serial with
  | none => exact .refl s
  | some s' =>
    obtain ⟨q', hq', rfl⟩ := Option.map_eq_some_iff.mp hg
    obtain ⟨q, hq, hgive⟩ := Option.bind_eq_some_iff.mp hq'
    exact calm_setPool hq (Pool.rests_giveUp? hgive)

theorem Working.meets (hw : w.Lawful Heeding) (h : Working c request raw p s) : Working c request raw p (p.meets w s) :=
  h.heeding (hw.meanwhile _ s)

theorem Idles.calm (hw : w.Lawful Heeding) (h : Idles w c p s p' s') : Calm s s' := by
  cases h with
  | begin _ hr _ => exact calm_receive hr
  | drained _ _ _ => exact (hw.keep _ s).calm
  | hold _ _ _ => exact calm_giveUp? s _
  | wake _ hr => exact calm_receive hr
  | _ => exact .refl s

theorem state_receive (s : World σ) : s.receive.2.state = s.state := by
  unfold World.receive
  split <;> rfl

theorem discards_submit {u : WorkUnit} {answer : Except PoolError Nat} (hs : s.submit u = (answer, s'))
    (hd : s.discards) : s'.discards := by
  obtain ⟨q, hq, hdiscarding⟩ := hd
  simp only [World.submit, hq] at hs
  obtain ⟨-, rfl⟩ := Prod.mk.inj hs
  refine ⟨_, pool_setPool hq _, ?_⟩
  rw [Pool.submit]
  split
  · rw [Pool.enter, Pool.place]
    split <;> exact hdiscarding
  · exact hdiscarding

theorem Advances.discards (hw : w.Lawful Heeding) (h : Advances w c request p s p' s') (hd : s.discards) :
    s'.discards := by
  have hripe : ∀ {p₁ s₁}, Ripe w c p s p₁ s₁ → s₁.discards := fun hr => by
    cases hr with
    | full _ => exact hd
    | last _ _ _ => exact (hw.keep _ s).calm.discards hd
  have hnext : ∀ {answer s'}, w.next s = (answer, s') → s'.discards := fun hn => by
    have hheeds := hw.next s
    rw [hn] at hheeds
    exact hheeds.calm.discards hd
  cases h with
  | @receive done s₁ hp hr =>
    obtain ⟨q, hq, hdiscarding⟩ := hd
    obtain ⟨-, rfl⟩ := receive_eq_some hq hr
    exact ⟨_, pool_setPool hq _, hdiscarding⟩
  | exhaust hp hmore hn | skip hp hmore hn hx => exact hnext hn
  | stage hp hmore hn hx ho => exact (hw.keep _ _).calm.discards (hnext hn)
  | take hp hpoll => exact (hw.keep _ s).calm.discards hd
  | submit hp hr hs hroom | block hp hr hs hroom => exact discards_submit hs (hripe hr)
  | enter hp hr hb => exact hd

theorem Stopped.step (hw : w.Lawful Heeding) (h : Stopped p s)
    (hturns : Advances w c request p s p' s' ∨ Idles w c p s p' s') : Stopped p' s' := by
  rcases h with hd | ⟨hp, hstop⟩
  · refine Or.inl ?_
    rcases hturns with ha | hi
    · exact ha.discards hw hd
    · exact (hi.calm hw).discards hd
  · rcases hturns with ha | hi
    · cases ha with
      | @receive done s₁ _ hr =>
        have hstate : s₁.state = s.state := by rw [← state_receive s, hr]
        exact Or.inr ⟨rfl, (stopRequested_tally done s₁.state).trans (hstate ▸ hstop)⟩
      | exhaust hp' _ _ | skip hp' _ _ _ | stage hp' _ _ _ _ | take hp' _ | submit hp' _ _ _ | block hp' _ _ _
      | enter hp' _ _ =>
        rw [hp] at hp'
        cases hp'
    · obtain ⟨hr, hgo⟩ := hi.begins hp
      have hstate : s'.state = s.state := by rw [← state_receive s, hr]
      rw [hstate, hstop] at hgo
      cases hgo

theorem Stopped.meets (hw : w.Lawful Heeding) (h : Stopped p s) : Stopped p (p.meets w s) :=
  h.imp (calm_meets hw p s).discards fun ⟨hp, hstop⟩ => ⟨hp, (hw.meanwhile _ s).stopped hstop⟩

theorem load_mono (p : Pump) {m n : Nat} (h : m ≤ n) : p.load m ≤ p.load n := by
  simp only [Pump.load]
  omega

theorem Idles.load_le (hdry : w.RunsDry left) (h : Idles w c p s p' s') (hf : Fed c request False raw p s) :
    p'.load (left s'.rest) ≤ p.load (left s.rest) := by
  cases h with
  | @begin s₁ hp hr _ | @wake s₁ hp hr =>
    have hrest : s'.rest = s.rest := by rw [← rest_receive s, hr]
    simp [Pump.load, Pump.moveTo, hp, hrest, Point.waitsFor?]
  | staged hp _ | limited hp _ | rest hp _ _ | again hp _ _ =>
    simp [Pump.load, Pump.moveTo, hp, Point.waitsFor?]
  | hold hp _ _ => rw [rest_giveUp?]
  | drained hp hpoll _ =>
    obtain ⟨q, sent, waiting, hq, hf, -⟩ := hf.feeding
    have hheld := Staging.holds_poll hf.queue (w.disk s)
    rw [hpoll] at hheld
    have hlen : (p.queue.poll (w.disk s)).2.length = p.queue.length := by
      rw [Staging.length_eq hf.queue, Staging.length_eq hheld.2, hheld.1]
    have hkeep := hdry.keep (p.queue.poll (w.disk s)).2.isOpen s
    simp only [Pump.load, Pump.moveTo, Pump.polled, hp, Point.waitsFor?, hlen]
    omega

namespace Endless

theorem meets (hw : w.Lawful Heeding) (h : Endless w c request raws pump world) (n : Nat) :
    Working c request (raws n) (pump n) ((pump n).meets w (world n)) := (h.working n).meets hw

theorem turns (hw : w.Lawful Heeding) (hc : 0 < c.batchSize) (h : Endless w c request raws pump world) (n : Nat) :
    Advances w c request (pump n) ((pump n).meets w (world n)) (pump (n + 1)) (world (n + 1)) ∨
      Idles w c (pump n) ((pump n).meets w (world n)) (pump (n + 1)) (world (n + 1)) :=
  ((h.meets hw n).step hw hc (h.step n)).2

theorem stopped (hw : w.Lawful Heeding) (hc : 0 < c.batchSize) (h : Endless w c request raws pump world)
    (hnm : n ≤ m) (hstop : Stopped (pump n) (world n)) : Stopped (pump m) (world m) := by
  induction m, hnm using Nat.le_induction with
  | base => exact hstop
  | succ m _ ih => exact (ih.meets hw).step hw (h.turns hw hc m)

theorem shift (h : Endless w c request raws pump world) (n : Nat) :
    Endless w c request (fun i => raws (n + i)) (fun i => pump (n + i)) (fun i => world (n + i)) :=
  ⟨fun i => h.working (n + i), fun i => h.step (n + i), fun i => h.room (n + i)⟩

/-- With an end of the source there is an end of all that brings the job on. -/
theorem exists_stuck (hw : w.Lawful Heeding) (hc : 0 < c.batchSize) (hdry : w.RunsDry left)
    (h : Endless w c request raws pump world) :
    ∃ n, Stuck w c request (fun i => raws (n + i)) (fun i => pump (n + i)) (fun i => world (n + i)) := by
  let load n := (pump n).load (left (world n).rest)
  have hmeets : ∀ n, (pump n).load (left ((pump n).meets w (world n)).rest) ≤ load n := fun n =>
    load_mono _ (hdry.meanwhile _ _)
  have hless : ∀ n, Advances w c request (pump n) ((pump n).meets w (world n)) (pump (n + 1)) (world (n + 1)) →
      load (n + 1) < load n := fun n ha =>
    ((h.meets hw n).fed.load_lt hc hdry ha).trans_le (hmeets n)
  have hle : ∀ n, load (n + 1) ≤ load n := by
    intro n
    rcases h.turns hw hc n with ha | hi
    · exact (hless n ha).le
    · exact (hi.load_le hdry (h.meets hw n).fed).trans (hmeets n)
  -- From where the load is least it stays the same, and so nothing advances any more.
  have hleast := Function.argmin_le load
  refine ⟨Function.argmin load, h.shift _, fun i => ?_⟩
  refine (h.turns hw hc (Function.argmin load + i)).resolve_left fun ha => ?_
  have hbefore := antitone_nat_of_succ_le hle (Nat.le_add_right (Function.argmin load) i)
  exact absurd (hleast (Function.argmin load + i + 1)) (by have := hless _ ha; omega)

end Endless

namespace Stuck

theorem calm (hw : w.Lawful Heeding) (h : Stuck w c request raws pump world) (hnm : n ≤ m) :
    Calm (world n) (world m) := by
  induction m, hnm using Nat.le_induction with
  | base => exact .refl _
  | succ m _ ih => exact ih.trans ((calm_meets hw _ _).trans ((h.idles m).calm hw))

theorem exists_rests (hw : w.Lawful Heeding) (h : Stuck w c request raws pump world) (hnm : n ≤ m)
    (hq : (world n).panel.pool = some q) :
    ∃ q', ((pump m).meets w (world m)).panel.pool = some q' ∧ q.Rests q' :=
  ((h.calm hw hnm).trans (calm_meets hw _ _)) q hq

/-- If it does not wait for room, it comes round again and again. -/
theorem exists_collecting (h : Stuck w c request raws pump world) (hn : (pump n).point.waitsFor? = none) :
    ∃ m, n ≤ m ∧ (pump m).point = .collecting := by
  induction hr : (pump n).point.rank using Nat.strong_induction_on generalizing n with
  | h rank ih =>
    rcases (h.idles n).onward with ⟨limit, serial, hp, -⟩ | ⟨-, hnext, hp | hlt⟩
    · rw [hp] at hn
      cases hn
    · exact ⟨n, Nat.le_refl n, hp⟩
    · obtain ⟨m, hm, hp⟩ := ih _ (hr ▸ hlt) hnext rfl
      exact ⟨m, by omega, hp⟩

theorem sending (h : Stuck w c request raws pump world) {limit serial : Nat}
    (hp : (pump n).point = .sending limit serial) (hnm : n ≤ m) : (pump m).point = .sending limit serial := by
  induction m, hnm using Nat.le_induction with
  | base => exact hp
  | succ m _ ih =>
    rcases (h.idles m).onward with ⟨_, _, -, hsame, -⟩ | ⟨hnone, -⟩
    · rw [hsame, ih]
    · rw [ih] at hnone
      cases hnone

theorem blocked (h : Stuck w c request raws pump world) {limit serial : Nat}
    (hp : (pump n).point = .sending limit serial) :
    ((pump n).meets w (world n)).isBlocked serial = true ∧
      world (n + 1) = (((pump n).meets w (world n)).giveUp? serial).getD ((pump n).meets w (world n)) := by
  rcases (h.idles n).onward with ⟨_, _, hp', -, hb, hnext⟩ | ⟨hnone, -⟩
  · rw [hp] at hp'
    cases hp'
    exact ⟨hb, hnext⟩
  · rw [hp] at hnone
    cases hnone

theorem isBlocked_of_sending (hw : w.Lawful Heeding) (h : Stuck w c request raws pump world) {limit serial : Nat}
    (hp : (pump n).point = .sending limit serial) (hq : (world n).panel.pool = some q) :
    q.isBlocked serial = true := by
  obtain ⟨q', hq', hrests⟩ := calm_meets hw (pump n) _ q hq
  have hb := (h.blocked hp).1
  simp only [World.isBlocked, hq', Option.any_some] at hb
  exact Pool.isBlocked_of_subset hrests.blocked hb

theorem not_stopped (hw : w.Lawful Heeding) (h : Stuck w c request raws pump world) (n : Nat) :
    ¬ Stopped (pump n) (world n) := by
  have hends : ∀ m, (pump m).point = .collecting →
      ((pump m).meets w (world m)).state.stopRequested = true → False := fun m hp hstop => by
    obtain ⟨hr, hgo⟩ := (h.idles m).begins hp
    have hstate := state_receive ((pump m).meets w (world m))
    rw [hr] at hstate
    rw [hstate, hstop] at hgo
    cases hgo
  -- A stop ends the next round that begins, and a wait for room as soon as the pool discards.
  rintro (hd | ⟨hp, hstop⟩)
  · have hdiscards : ∀ m, n ≤ m → ((pump m).meets w (world m)).discards := fun m hm =>
      ((h.calm hw hm).trans (calm_meets hw _ _)).discards hd
    cases hwaits : (pump n).point.waitsFor? with
    | none =>
      obtain ⟨m, hm, hp⟩ := h.exists_collecting hwaits
      obtain ⟨q, hq, hdiscarding⟩ := hdiscards m hm
      exact hends m hp (((h.meets hw m).staffed.pool q hq).discarding hdiscarding)
    | some serial =>
      obtain ⟨limit, hp⟩ := Point.sending_of_waitsFor? hwaits
      obtain ⟨hb, hnext⟩ := h.blocked hp
      obtain ⟨q, hq, hdiscarding⟩ := hdiscards n le_rfl
      have hqb : q.isBlocked serial = true := by simpa [World.isBlocked, hq] using hb
      obtain ⟨q', hgive⟩ : ∃ q', q.giveUp? serial = some q' := ⟨_, if_pos ⟨hqb, Or.inr hdiscarding⟩⟩
      have hworld : world (n + 1) = ((pump n).meets w (world n)).setPool q' := by
        rw [hnext]
        simp [World.giveUp?, hq, hgive]
      have hstill := h.isBlocked_of_sending hw (h.sending hp (Nat.le_succ n))
        (by rw [hworld]; exact pool_setPool hq q')
      rw [Pool.isBlocked_giveUp? hgive] at hstill
      cases hstill
  · exact hends n hp ((hw.meanwhile _ _).stopped hstop)

/-- While the machine waits for room there is none, and so a task of the backlog will complete. -/
theorem exists_shorter (hw : w.Lawful Heeding) (h : Stuck w c request raws pump world)
    (hserved : Served (fun n => Stopped (pump n) (world n)) world) {limit serial : Nat}
    (hp : (pump n).point = .sending limit serial) (hq : (world n).panel.pool = some q) :
    ∃ m q', n ≤ m ∧ (world m).panel.pool = some q' ∧ q'.backlog.length < q.backlog.length := by
  obtain ⟨journal, hj⟩ := (h.working n).fed.sound hq
  have hroom : q.hasRoom = false := by
    by_contra hroom
    obtain ⟨m, hm, hstop | ⟨q', hq', hin⟩⟩ :=
      hserved.admits n q serial hq (h.isBlocked_of_sending hw hp hq) (by simpa using hroom)
    · exact h.not_stopped hw m hstop
    · rw [h.isBlocked_of_sending hw (h.sending hp hm) hq'] at hin
      cases hin
  have hdepth := ((h.working n).staffed.pool q hq).depth
  have hbacklog : q.backlog ≠ [] := by
    rintro hempty
    simp [Pool.hasRoom, hempty] at hroom
    omega
  obtain ⟨t, ht⟩ := List.exists_mem_of_ne_nil _ hbacklog
  obtain ⟨m, hm, hstop | ⟨q', hq', done, hdone, hserial⟩⟩ :=
    hserved.completes n q t.serial hq (hj.isAccepted_of_backlog ht)
  · exact absurd hstop (h.not_stopped hw m)
  obtain ⟨q₁, hq₁, hrests⟩ := h.calm hw hm q hq
  obtain rfl := Option.some.inj (hq₁.symm.trans hq')
  obtain ⟨journal', hj'⟩ := (h.working m).fed.sound hq'
  obtain ⟨⟨q₂, sent, waiting, hq₂, hf, -⟩, -⟩ := (h.working n).fed
  obtain rfl := Option.some.inj (hq₂.symm.trans hq)
  have halone : ∀ t ∈ q₂.blocked, t.serial = serial := by
    intro t ht
    have hwaits := hf.blocked t ht
    rw [hp] at hwaits
    exact (Option.some.inj hwaits).symm
  exact ⟨m, q₁, hm, hq', Pool.length_backlog_lt hj' hrests.queue halone
    (h.isBlocked_of_sending hw (h.sending hp hm) hq') ht hdone hserial⟩

theorem waitsFor?_eq_none (hw : w.Lawful Heeding) (h : Stuck w c request raws pump world)
    (hserved : Served (fun n => Stopped (pump n) (world n)) world) (n : Nat) : (pump n).point.waitsFor? = none := by
  by_contra hwaits
  obtain ⟨serial, hserial⟩ := Option.ne_none_iff_exists'.mp hwaits
  obtain ⟨limit, hp⟩ := Point.sending_of_waitsFor? hserial
  obtain ⟨q, -, -, hq, -⟩ := (h.working n).fed.feeding
  clear hwaits hserial
  induction hlen : q.backlog.length using Nat.strong_induction_on generalizing n q with
  | h len ih =>
    obtain ⟨m, q', hm, hq', hlt⟩ := h.exists_shorter hw hserved hp hq
    exact ih _ (hlen ▸ hlt) m (h.sending hp hm) q' hq' rfl

theorem exists_waiting (hw : w.Lawful Heeding) (h : Stuck w c request raws pump world) (hs : (pump n).Silent) :
    ∃ m, n ≤ m ∧ (pump m).point = .waiting ∧ (pump m).Silent := by
  -- Each step of a silent round comes nearer to its end.
  induction hr : (pump n).point.rank using Nat.strong_induction_on generalizing n with
  | h rank ih =>
    by_cases hp : (pump n).point = .waiting
    · exact ⟨n, le_rfl, hp, hs⟩
    · have hnext := (h.meets hw n).silent (h.room n) (h.idles n) (Or.inr ⟨hs, hp⟩)
      rcases (h.idles n).onward with ⟨_, _, hsending, -⟩ | ⟨-, -, hcollecting | hlt⟩
      · simp [Pump.Silent, hsending] at hs
      · simp [Pump.Silent, hcollecting] at hs
      · obtain ⟨m, hm, hwaiting⟩ := ih _ (hr ▸ hlt) hnext rfl
        exact ⟨m, by omega, hwaiting⟩

theorem absurd_of_served (hw : w.Lawful Heeding) (h : Stuck w c request raws pump world)
    (hserved : Served (fun n => Stopped (pump n) (world n)) world) : False := by
  have hnone := h.waitsFor?_eq_none hw hserved
  obtain ⟨m₁, -, hcollecting⟩ := h.exists_collecting (hnone 0)
  obtain ⟨m₂, -, hwaiting, hsilent⟩ :=
    h.exists_waiting hw ((h.meets hw m₁).silent (h.room m₁) (h.idles m₁) (Or.inl hcollecting))
  simp only [Pump.Silent, hwaiting] at hsilent
  obtain ⟨q, serial, hq, haccepted, hout⟩ := (h.working m₂).fed.exists_outstanding (hnone m₂) hsilent
  obtain ⟨m₃, hm₃, hstop | ⟨q₃, hq₃, done, hdone, hserial⟩⟩ := hserved.completes m₂ q serial hq haccepted
  · exact h.not_stopped hw m₃ hstop
  obtain ⟨m₄, hm₄, hagain⟩ := h.exists_collecting (hnone m₃)
  obtain ⟨q₄, hq₄, hrests⟩ := h.exists_rests hw (hm₃.trans hm₄) hq
  obtain ⟨q₅, hq₅, hrests₃⟩ := h.exists_rests hw hm₄ hq₃
  obtain rfl := Option.some.inj (hq₄.symm.trans hq₅)
  obtain ⟨hend, -⟩ := receive_eq_none hq₄ ((h.idles m₄).begins hagain).1
  -- Nothing is left to receive in the end, as nothing was before: so nothing completed in between.
  obtain ⟨⟨q₂, sent, waiting, hq₂, hf, -⟩, -⟩ := (h.working m₂).fed
  obtain rfl := Option.some.inj (hq₂.symm.trans hq)
  have hend := List.getElem?_eq_none_iff.mp hend
  rw [hrests.received] at hend
  have hsame : q₄.completions = q₂.completions :=
    (hrests.completions.eq_of_length_le (hend.trans hf.received_le)).symm
  have hall : q₂.completions.take q₂.received = q₂.completions := by
    rw [List.take_of_length_le]
    rw [← hsame]
    exact hend
  refine hout done ?_ hserial
  rw [hall, ← hsame]
  exact hrests₃.completions.subset hdone

end Stuck

namespace Endless

/-- With a source that ends, and served until a stop, the machine comes to its end. -/
theorem absurd_of_served (hw : w.Lawful Heeding) (hc : 0 < c.batchSize) (hdry : w.RunsDry left)
    (h : Endless w c request raws pump world) (hserved : Served (fun n => Stopped (pump n) (world n)) world) :
    False := by
  obtain ⟨n, hstuck⟩ := h.exists_stuck hw hc hdry
  exact hstuck.absurd_of_served hw (hserved.shift fun _ => id)

/-- A machine that is stopped need not even be served. -/
theorem absurd_of_stopped (hw : w.Lawful Heeding) (hc : 0 < c.batchSize) (hdry : w.RunsDry left)
    (h : Endless w c request raws pump world) (hstop : Stopped (pump 0) (world 0)) : False := by
  obtain ⟨n, hstuck⟩ := h.exists_stuck hw hc hdry
  exact hstuck.not_stopped hw 0 (h.stopped hw hc (Nat.zero_le n) hstop)

end Endless
end BatchJob.Job
