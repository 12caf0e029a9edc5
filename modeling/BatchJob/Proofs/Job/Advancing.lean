import BatchJob.Proofs.Job.Events
import BatchJob.Proofs.Job.Working

/-! How the machine comes on. Each of its rounds brings the job a bit further or waits for a unit that is still out; and
since whatever a step takes, moves or receives has less of its way before it afterwards, this cannot go on forever. -/
namespace BatchJob.Worker.Pool

/-- The unit was let in, and it was not received yet. -/
def Outstanding (q : Pool) (serial : Nat) : Prop :=
  q.isAccepted serial = true ∧ ∀ done ∈ q.completions.take q.received, done.task.serial ≠ serial

theorem exists_outstanding {q : Pool} (hb : q.blocked = []) (hr : ∀ i, q.reply i ≠ .refused)
    (hlt : q.received < q.submissions.length) : ∃ i, q.Outstanding i := by
  by_contra hnone
  have hin : ∀ i < q.submissions.length, i ∈ (q.completions.take q.received).map (·.task.serial) := by
    intro i hi
    by_contra hout
    refine hnone ⟨i, by simp [isAccepted, isBlocked, hi, hb, hr], fun done hd he => hout ?_⟩
    exact List.mem_map.mpr ⟨done, hd, he⟩
  have hsub : List.range q.submissions.length ⊆ (q.completions.take q.received).map (·.task.serial) := fun i hi =>
    hin i (List.mem_range.mp hi)
  have hlen := (List.nodup_range.subperm hsub).length_le
  rw [List.length_range, List.length_map, List.length_take] at hlen
  omega

end BatchJob.Worker.Pool

namespace BatchJob.Job
open Worker Queue

variable {σ : Type}

/-- What a step can bring: an identifier from the source or the news that there is none any more, an identifier in the
batch, a unit in the pool, or one that came back; or it waits for one that will. -/
inductive Gains (w : Surroundings σ) (c : Settings) (request : Work.Request) (p : Pump) (s : World σ) : Prop
  | pulled {x : String} (h : (p.step w.recorded c request (s.noting [])).2.2.log = [.pulled (.ok (some x))])
  | exhausted (h : p.sourceDone = false)
    (h' : (p.step w.recorded c request (s.noting [])).2.2.log = [.pulled (.ok none)])
  | moved {x : String} (h : (p.step w c request s).2.1.batch = p.batch ++ [x])
  | submitted {u : WorkUnit} (h : (p.step w c request s).2.2.units = s.units ++ [u])
  | received {q q' : Pool} (hq : s.panel.pool = some q) (hq' : (p.step w c request s).2.2.panel.pool = some q')
    (h : q'.received = q.received + 1)
  | waits {q : Pool} {serial : Nat} (hp : p.point = .waiting) (hq : s.panel.pool = some q)
    (h : q.Outstanding serial)

/-- A source that ends: whatever it yields leaves less of it, and nothing that goes on besides makes it longer. -/
structure Surroundings.RunsDry (w : Surroundings σ) (left : σ → Nat) : Prop where
  yields : ∀ {s s' x}, w.next s = (.ok (some x), s') → left s'.rest < left s.rest
  next : ∀ s, left (w.next s).2.rest ≤ left s.rest
  keep : ∀ isOpen s, left (w.keep isOpen s).rest ≤ left s.rest
  meanwhile : ∀ m s, left (w.meanwhile m s).rest ≤ left s.rest

/-- What there is still to do, where `left` identifiers are still to come. -/
def Pump.load (left : Nat) (p : Pump) : Nat :=
  5 * left + (!p.sourceDone).toNat + 4 * p.queue.length + 3 * p.batch.length +
    2 * p.point.waitsFor?.toList.length + p.inFlight

/-- Nothing was staged or submitted in this round so far, and for a reason. -/
def Pump.Silent (p : Pump) : Prop :=
  match p.point with
  | .staging => p.staged = 0 ∧ p.submitted = 0
  | .filling limit => p.staged = 0 ∧ p.submitted = 0 ∧ 0 < limit ∧ (p.sourceDone = true ∨ p.queue.isFull = true)
  | .concluding => p.staged = 0 ∧ p.submitted = 0 ∧ (0 < p.inFlight ∨ p.isDone)
  | .waiting => 0 < p.inFlight
  | _ => False

/-- How far it is to the end of the round. -/
def Point.rank : Point → Nat
  | .collecting => 0
  | .waiting => 1
  | .concluding => 2
  | .filling _ => 3
  | .staging => 4
  | .sending _ _ => 5

variable {w : Surroundings σ} {c : Settings} {request : Work.Request} {raw : List String}
variable {p p' p₁ : Pump} {q q' : Pool} {s s' s₁ : World σ} {left : σ → Nat}

theorem Fed.exists_outstanding (h : Fed c request False raw p s) (hp : p.point.waitsFor? = none)
    (hin : 0 < p.inFlight) : ∃ q serial, s.panel.pool = some q ∧ q.Outstanding serial := by
  obtain ⟨⟨q, sent, waiting, hq, hf, -⟩, -⟩ := h
  have hlen := hf.inFlight_eq
  rw [hp, Option.toList_none, List.length_nil] at hlen
  obtain ⟨serial, hs⟩ := Pool.exists_outstanding (hf.blocked_nil hp)
    (fun i hi => by
      have hwaits := hf.refused i hi
      rw [hp] at hwaits
      cases hwaits) (by omega)
  exact ⟨q, serial, hq, hs⟩

theorem Fed.inFlight_pos (h : Fed c request False raw p s) (hp : p.point.waitsFor? = none) {done : Completed}
    (hr : s.receive = (some done, s')) : 0 < p.inFlight := by
  obtain ⟨⟨q, sent, waiting, hq, hf, -⟩, -⟩ := h
  obtain ⟨hdone, -⟩ := receive_eq_some hq hr
  obtain ⟨journal, hj⟩ := hf.orderly
  have hlt := (List.getElem?_eq_some_iff.mp hdone).1
  have hle := hj.sound.length_completions_le
  have hlen := hf.inFlight_eq
  rw [hp, Option.toList_none, List.length_nil] at hlen
  omega

theorem Fed.units_eq (h : Fed c request False raw p s) (hs : Stirred False s.panel s'.panel) :
    s'.units = s.units := by
  obtain ⟨⟨q, sent, waiting, hq, hf, -⟩, -⟩ := h
  obtain ⟨q', k, hq', hl⟩ := hs.pool q hq
  obtain ⟨journal, hj⟩ := hf.orderly
  rw [units_of_some hq, units_of_some hq', (leads_others hj hl).2.units]

theorem units_of_submit {u : WorkUnit} {serial : Nat} (hs : s.submit u = (.ok serial, s')) :
    s'.units = s.units ++ [u] := by
  cases hq : s.panel.pool with
  | none => simp [World.submit, hq] at hs
  | some q =>
    simp only [World.submit, hq] at hs
    obtain ⟨hok, rfl⟩ := Prod.mk.inj hs
    rw [units_of_some hq, units_of_some (pool_setPool hq _)]
    rw [Pool.submit] at hok ⊢
    split at hok
    · rename_i hadmits
      simp only [hadmits, if_true]
      exact (Pool.units_enter q u).1
    · cases hok

theorem Fed.units_of_ripe (hw : w.Lawful Heeding) (h : Fed c request False raw p s) (hripe : Ripe w c p s p₁ s₁) :
    s₁.units = s.units := by
  cases hripe with
  | full _ => rfl
  | last _ _ _ => exact h.units_eq (hw.keep _ s).toStirred

theorem log_of_next {answer : Except String (Option String)} (hp : p.point = .staging) (hmore : ¬ p.isStaged)
    (hn : w.next s = (answer, s')) :
    (p.step w.recorded c request (s.noting [])).2.2.log = [.pulled answer] := by
  rw [Pump.step_recorded, Pump.asks, if_pos ⟨hp, hmore⟩, hn]
  rfl

theorem sourceDone_of_more (h : ¬ p.isStaged) : p.sourceDone = false := by
  simp only [Pump.isStaged, not_or] at h
  simpa using h.1

/-- A step that advances brings something, unless it lets in a unit that was submitted before. -/
theorem Fed.gains (hw : w.Lawful Heeding) (h : Fed c request False raw p s) (hp : p.point.waitsFor? = none)
    (hstep : p.step w c request s = (none, p', s')) (ha : Advances w c request p s p' s') :
    Gains w c request p s := by
  have hsubmitted : ∀ {p₁ s₁ serial}, Ripe w c p s p₁ s₁ → s₁.submit (p₁.unit c request) = (.ok serial, s') →
      Gains w c request p s := fun hripe hs =>
    .submitted (by rw [hstep, units_of_submit hs, h.units_of_ripe hw hripe])
  cases ha with
  | @receive done s₁ hpoint hr =>
    obtain ⟨q, sent, waiting, hq, -, -⟩ := h.feeding
    obtain ⟨-, rfl⟩ := receive_eq_some hq hr
    exact .received hq (by rw [hstep]; exact pool_setPool hq _) rfl
  | exhaust hpoint hmore hn => exact .exhausted (sourceDone_of_more hmore) (log_of_next hpoint hmore hn)
  | skip hpoint hmore hn hx => exact .pulled (log_of_next hpoint hmore hn)
  | stage hpoint hmore hn hx ho => exact .pulled (log_of_next hpoint hmore hn)
  | take hpoint hpoll => exact .moved (by rw [hstep])
  | submit hpoint hripe hs hroom => exact hsubmitted hripe hs
  | block hpoint hripe hs hroom => exact hsubmitted hripe hs
  | enter hpoint hr hb => simp [hpoint, Point.waitsFor?] at hp

theorem rest_receive (s : World σ) : s.receive.2.rest = s.rest := by
  rw [World.receive]
  cases s.panel.pool <;> rfl

theorem rest_submit (u : WorkUnit) (s : World σ) : (s.submit u).2.rest = s.rest := by
  rw [World.submit]
  cases s.panel.pool <;> rfl

theorem rest_giveUp? (s : World σ) (serial : Nat) : ((s.giveUp? serial).getD s).rest = s.rest := by
  rw [World.giveUp?]
  cases s.panel.pool.bind (·.giveUp? serial) <;> rfl

theorem Ripe.load_cut (hc : 0 < c.batchSize) (hdry : w.RunsDry left) (h : Fed c request False raw p s)
    (hripe : Ripe w c p s p₁ s₁) :
    p₁.queue.length = p.queue.length ∧ p₁.sourceDone = p.sourceDone ∧ p₁.inFlight = p.inFlight ∧
      0 < p.batch.length ∧ left s₁.rest ≤ left s.rest := by
  cases hripe with
  | full hfull => exact ⟨rfl, rfl, rfl, by omega, le_rfl⟩
  | last hpoll hdone hbatch =>
    obtain ⟨⟨q, sent, waiting, hq, hf, -⟩, -⟩ := h
    have hheld := Staging.holds_poll hf.queue (w.disk s)
    rw [hpoll] at hheld
    refine ⟨?_, rfl, rfl, List.length_pos_iff.mpr hbatch, hdry.keep _ s⟩
    rw [Staging.length_eq hf.queue, hheld.1]
    exact Staging.length_eq hheld.2

theorem Fed.load_lt (hc : 0 < c.batchSize) (hdry : w.RunsDry left) (h : Fed c request False raw p s)
    (ha : Advances w c request p s p' s') : p'.load (left s'.rest) < p.load (left s.rest) := by
  obtain ⟨q, sent, waiting, hq, hf, -⟩ := h.feeding
  -- What moves on weighs less at its new place, and every way to advance moves something on.
  cases ha with
  | @receive done s₁ hpoint hr =>
    have hnone : p.point.waitsFor? = none := by rcases hpoint with hpoint | hpoint <;> rw [hpoint] <;> rfl
    have hpos := h.inFlight_pos hnone hr
    have hrest : s₁.rest = s.rest := by rw [← rest_receive s, hr]
    have hkept : (s₁.onState (tally done)).rest = s.rest := hrest
    simp only [Pump.load, hkept, Point.waitsFor?, Option.toList_none, List.length_nil]
    omega
  | exhaust hpoint hmore hn =>
    have hless : left s'.rest ≤ left s.rest := by simpa only [hn] using hdry.next s
    simp only [Pump.load, sourceDone_of_more hmore, Bool.not_true, Bool.not_false, Bool.toNat_true, Bool.toNat_false]
    omega
  | skip hpoint hmore hn hx =>
    have hless := hdry.yields hn
    simp only [Pump.load]
    omega
  | @stage x s₁ hpoint hmore hn hx ho =>
    have hlen : (p.queue.offer x (w.disk s₁)).2.length = p.queue.length + 1 := by
      rw [Staging.length_eq hf.queue,
        Staging.length_eq (Staging.holds_offer hf.queue (ne_empty_of_not_blank hx) _ ho)]
      simp
    have hless := hdry.yields hn
    have hkeep := hdry.keep (p.queue.offer x (w.disk s₁)).2.isOpen s₁
    simp only [Pump.load, Pump.offered, hlen]
    omega
  | @take limit x hpoint hpoll =>
    have hheld := Staging.holds_poll hf.queue (w.disk s)
    rw [hpoll] at hheld
    obtain ⟨rest, rfl, hrest⟩ := hheld
    have hlen : p.queue.length = (p.queue.poll (w.disk s)).2.length + 1 := by
      rw [Staging.length_eq hf.queue, Staging.length_eq hrest, List.length_cons]
    have hkeep := hdry.keep (p.queue.poll (w.disk s)).2.isOpen s
    simp only [Pump.load, Pump.polled, hlen, List.length_append, List.length_singleton]
    omega
  | @submit limit serial p₁ s₁ s₂ hpoint hripe hs hroom =>
    obtain ⟨hqueue, hdone, hin, hbatch, hleft⟩ := hripe.load_cut hc hdry h
    have hrest : s'.rest = s₁.rest := by rw [← rest_submit (p₁.unit c request) s₁, hs]
    simp only [Pump.load, Pump.cut, hqueue, hdone, hin, hrest, Point.waitsFor?, Option.toList_none, List.length_nil]
    omega
  | @block limit serial p₁ s₁ s₂ hpoint hripe hs hroom =>
    obtain ⟨hqueue, hdone, hin, hbatch, hleft⟩ := hripe.load_cut hc hdry h
    have hrest : s'.rest = s₁.rest := by rw [← rest_submit (p₁.unit c request) s₁, hs]
    simp only [Pump.load, Pump.cut, Pump.moveTo, hqueue, hdone, hin, hrest, Point.waitsFor?, Option.toList_some,
      List.length_nil, List.length_singleton]
    omega
  | enter hpoint hr hb =>
    simp only [Pump.load, hpoint, Point.waitsFor?, Option.toList_some, Option.toList_none, List.length_nil,
      List.length_singleton]
    omega

theorem Idles.onward (h : Idles w c p s p' s') :
    (∃ limit serial, p.point = .sending limit serial ∧ p' = p ∧ s.isBlocked serial = true ∧
      s' = (s.giveUp? serial).getD s) ∨
    p.point.waitsFor? = none ∧ p'.point.waitsFor? = none ∧ (p.point = .collecting ∨ p'.point.rank < p.point.rank) := by
  cases h with
  | begin hp hr hgo => exact Or.inr ⟨by rw [hp]; rfl, rfl, Or.inl hp⟩
  | hold hp hr hb => exact Or.inl ⟨_, _, hp, rfl, hb, rfl⟩
  | staged hp _ | limited hp _ | drained hp _ _ | rest hp _ _ | again hp _ _ | wake hp _ =>
    exact Or.inr ⟨by rw [hp]; rfl, rfl, Or.inr (by simp [hp, Pump.moveTo, Point.rank])⟩

theorem Idles.begins (h : Idles w c p s p' s') (hp : p.point = .collecting) :
    s.receive = (none, s') ∧ s'.state.stopRequested = false := by
  cases h with
  | begin _ hr hgo => exact ⟨hr, hgo⟩
  | staged hp' _ | limited hp' _ | drained hp' _ _ | hold hp' _ _ | rest hp' _ _ | again hp' _ _ | wake hp' _ =>
    rw [hp] at hp'
    cases hp'

theorem Working.silent (hroom : s.state.threadCount + c.inFlightLimit < Text.limit64)
    (h : Working c request raw p s) (hi : Idles w c p s p' s')
    (hp : p.point = .collecting ∨ p.Silent ∧ p.point ≠ .waiting) : p'.Silent := by
  have hsilent : p.point ≠ .collecting → p.Silent := fun hne => (hp.resolve_left hne).1
  cases hi with
  | begin hpoint hr hgo => exact ⟨rfl, rfl⟩
  | staged hpoint hover =>
    have hquiet := hsilent (by simp [hpoint])
    simp only [Pump.Silent, hpoint] at hquiet
    have hpos : 0 < Pump.limit c s := by
      rw [Pump.limit, Nat.mod_eq_of_lt hroom]
      exact Nat.add_pos_left h.staffed.threads _
    refine ⟨hquiet.1, hquiet.2, hpos, ?_⟩
    rcases hover with hdone | hchunk | hfull
    · exact Or.inl hdone
    · rw [hquiet.1] at hchunk
      exact absurd hchunk (by decide)
    · exact Or.inr hfull
  | limited hpoint hl =>
    have hquiet := hsilent (by simp [hpoint])
    simp only [Pump.Silent, hpoint] at hquiet
    exact ⟨hquiet.1, hquiet.2.1, Or.inl (hquiet.2.2.1.trans_le hl)⟩
  | drained hpoint hpoll hlast =>
    have hquiet := hsilent (by simp [hpoint])
    simp only [Pump.Silent, hpoint] at hquiet
    obtain ⟨hstaged, hsubmitted, -, hover⟩ := hquiet
    obtain ⟨⟨q, sent, waiting, hq, hf, -⟩, -⟩ := h.fed
    have hheld := Staging.holds_poll hf.queue (w.disk s)
    rw [hpoll] at hheld
    -- The queue is empty, and so it is not for want of room that nothing was staged.
    have hdone : p.sourceDone = true := hover.resolve_right fun hfull =>
      Staging.ne_nil_of_isFull hf.queue h.roomy hfull hheld.1
    have hbatch : p.batch = [] := by simpa [hdone] using hlast
    have hempty : (p.queue.poll (w.disk s)).2.isEmpty = true := (Staging.isEmpty_iff hheld.2).mpr rfl
    refine ⟨hstaged, hsubmitted, ?_⟩
    rcases Nat.eq_zero_or_pos p.inFlight with hzero | hpos
    · exact Or.inr ⟨hdone, hbatch, hempty, hzero⟩
    · exact Or.inl hpos
  | hold hpoint hr hb =>
    have hquiet := hsilent (by simp [hpoint])
    simp only [Pump.Silent, hpoint] at hquiet
  | rest hpoint hover hidle => exact hidle.2.2
  | again hpoint hover hidle =>
    have hquiet := hsilent (by simp [hpoint])
    simp only [Pump.Silent, hpoint] at hquiet
    obtain ⟨hstaged, hsubmitted, hpos | hdone⟩ := hquiet
    · exact absurd ⟨hstaged, hsubmitted, hpos⟩ hidle
    · exact absurd hdone hover
  | wake hpoint hr => simp [hpoint] at hp

theorem Working.gains_of_waiting (h : Working c request raw p s) (hp : p.point = .waiting) (hs : p.Silent) :
    Gains w c request p s := by
  simp only [Pump.Silent, hp] at hs
  obtain ⟨q, serial, hq, hout⟩ := h.fed.exists_outstanding (by rw [hp]; rfl) hs
  exact .waits hp hq hout

theorem Pump.Silent.waitsFor? (h : p.Silent) : p.point.waitsFor? = none := by
  rw [Silent] at h
  split at h <;> rename_i hp <;> first | exact h.elim | rw [hp]; rfl

/-- In a round that has brought nothing so far a step ends the pumping, brings something, or leaves the round silent. -/
theorem Working.round (hw : w.Lawful Heeding) (hc : 0 < c.batchSize)
    (hroom : s.state.threadCount + c.inFlightLimit < Text.limit64) (h : Working c request raw p s)
    (hp : p.point = .collecting ∨ p.Silent) (hstep : p.step w c request s = (none, p', s')) :
    Gains w c request p s ∨ p'.Silent := by
  obtain ⟨-, ha | hi⟩ := h.step hw hc hstep
  · have hnone : p.point.waitsFor? = none := by
      rcases hp with hp | hp
      · rw [hp]
        rfl
      · exact hp.waitsFor?
    exact Or.inl (h.fed.gains hw hnone hstep ha)
  · by_cases hwaiting : p.point = .waiting
    · exact Or.inl (h.gains_of_waiting hwaiting (hp.resolve_left (by simp [hwaiting])))
    · exact Or.inr (h.silent hroom hi (hp.imp_right fun hs => ⟨hs, hwaiting⟩))

end BatchJob.Job
