import BatchJob.Proofs.Job.Feeding

/-! What the machine that feeds the worker pool does first in each of its rounds: it collects what completed,
and it stages identifiers. -/
namespace BatchJob.Job
open Worker Queue

variable {σ : Type} {w : Surroundings σ} {c : Settings} {request : Work.Request} {solo : Prop}
variable {raw : List String} {sent : List (List String)} {waiting : List String}
variable {p : Pump} {q : Pool} {s s' : World σ}

/-- A step leads on, or it ends the feeding. -/
def Goes (c : Settings) (request : Work.Request) (solo : Prop) (raw : List String) :
    Step σ → Prop
  | (none, p, s) => Fed c request solo raw p s
  | (some result, p, s) =>
    Ended c request solo raw p.sourceDone result s ∧ s.state.phase.isFinal = false

@[simp] theorem pool_setPool (h : s.panel.pool = some q) (q' : Pool) :
    (s.setPool q').panel.pool = some q' := by simp [World.setPool, World.onPool, Control.Panel.onPool, h]

theorem receive_eq (h : s.panel.pool = some q) : s.receive = (q.receive.1, s.setPool q.receive.2) := by
  simp [World.receive, h]

theorem Feeding.ended (h : Feeding c request solo raw sent waiting p q) (hq : s.panel.pool = some q)
    (hb : q.blocked = []) {result : Except JobError Ending} (hr : result ≠ .ok .completed) :
    Ended c request solo raw p.sourceDone result s := by
  refine ⟨fun q' hq' => ?_, fun q' hq' => ?_, fun he => absurd he hr⟩
  · rw [hq] at hq'
    cases hq'
    exact h.spent
  · rw [hq] at hq'
    cases hq'
    exact hb

theorem Fed.ended (h : Fed c request solo raw p s) (hp : p.point.waitsFor? = none)
    {result : Except JobError Ending} (hr : result ≠ .ok .completed) :
    Ended c request solo raw p.sourceDone result s := by
  obtain ⟨⟨q, sent, waiting, hq, hf, -⟩, -⟩ := h
  exact hf.ended hq (hf.blocked_nil hp) hr

theorem phase_tally (done : Completed) (t : Control.State) : (tally done t).phase = t.phase := by
  rw [tally]
  split <;> rfl

theorem receive_eq_some (hq : s.panel.pool = some q) {done : Completed}
    (hr : s.receive = (some done, s')) : q.completions[q.received]? = some done ∧
      s' = s.setPool { q with received := q.received + 1 } := by
  rw [receive_eq hq] at hr
  cases hd : q.completions[q.received]? with
  | none => simp [Pool.receive_none hd] at hr
  | some other =>
    rw [Pool.receive_some hd] at hr
    simp only [Prod.mk.injEq, Option.some.injEq] at hr
    exact ⟨by rw [hr.1], hr.2.symm⟩

theorem receive_eq_none (hq : s.panel.pool = some q) (hr : s.receive = (none, s')) :
    q.completions[q.received]? = none ∧ s' = s.setPool q := by
  rw [receive_eq hq] at hr
  cases hd : q.completions[q.received]? with
  | some done => simp [Pool.receive_some hd] at hr
  | none =>
    rw [Pool.receive_none hd] at hr
    exact ⟨rfl, (Prod.mk.inj hr).2.symm⟩

theorem Feeding.record (h : Feeding c request solo raw sent waiting p q)
    (hp : p.point.waitsFor? = none) {done : Completed}
    (hdone : q.completions[q.received]? = some done) :
    Feeding c request solo raw sent waiting
      { p with inFlight := p.inFlight - 1, point := .collecting }
      { q with received := q.received + 1 } := by
  obtain ⟨journal, hj⟩ := h.orderly
  have hlt : q.received < q.completions.length := (List.getElem?_eq_some_iff.mp hdone).1
  have hle := hj.sound.length_completions_le
  have hin := h.inFlight_eq
  rw [hp, Option.toList_none, List.length_nil] at hin
  have hnobody : ∀ i, p.point.waitsFor? ≠ some i := fun i => by rw [hp]; simp
  have horderly := hj.receive
  rw [Pool.receive_some hdone] at horderly
  exact { h with
    orderly := ⟨journal, horderly⟩
    received_le := hlt
    inFlight_eq := by
      simp only [Point.waitsFor?, Option.toList_none, List.length_nil]
      omega
    refused := fun i hi => absurd (h.refused i hi) (hnobody i)
    last := fun i hi => by cases hi
    blocked := fun t ht => absurd (h.blocked t ht) (hnobody t.serial) }

theorem Tallied.record {t : Control.State} (h : Tallied t q) {done : Completed}
    (hdone : q.completions[q.received]? = some done) :
    Tallied (tally done t) { q with received := q.received + 1 } := by
  have hsum : ((q.completions.take (q.received + 1)).map (·.task.unit.items)).sum =
      ((q.completions.take q.received).map (·.task.unit.items)).sum + done.task.unit.items := by
    rw [List.take_add_one, hdone]
    simp
  rw [Tallied, hsum, ← h, tally]
  split <;> simp only <;> omega

theorem Fed.record (h : Fed c request solo raw p s) (hp : p.point.waitsFor? = none) {done : Completed}
    (hr : s.receive = (some done, s')) : Goes c request solo raw (p.record c done s') := by
  obtain ⟨⟨q, sent, waiting, hq, hf, ht⟩, hphase⟩ := h
  obtain ⟨hdone, rfl⟩ := receive_eq_some hq hr
  have hf' := hf.record hp hdone
  have hpool : ((s.setPool { q with received := q.received + 1 }).onState (tally done)).panel.pool =
      some { q with received := q.received + 1 } := pool_setPool hq _
  have hphase' : (tally done s.state).phase.isFinal = false := by
    rw [phase_tally]
    exact hphase
  simp only [Pump.record]
  split
  · exact ⟨hf'.ended hpool (hf'.blocked_nil rfl) (by simp), hphase'⟩
  · exact ⟨⟨_, sent, waiting, hpool, hf', ht.record hdone⟩, hphase'⟩

theorem Fed.receive_none (h : Fed c request solo raw p s) (hr : s.receive = (none, s')) :
    Fed c request solo raw p s' := by
  obtain ⟨⟨q, sent, waiting, hq, hf, ht⟩, hphase⟩ := h
  obtain ⟨-, rfl⟩ := receive_eq_none hq hr
  exact ⟨⟨q, sent, waiting, pool_setPool hq q, hf, ht⟩, hphase⟩

theorem Fed.moveTo {p' : Pump} (h : Fed c request solo raw p s) (hp : p.point.waitsFor? = none)
    (hp' : p'.point.waitsFor? = none) (hqueue : p'.queue = p.queue) (hbatch : p'.batch = p.batch)
    (hin : p'.inFlight = p.inFlight) (hunits : p'.units = p.units)
    (hdone : p.sourceDone = true → p'.sourceDone = true) :
    Fed c request solo raw p' s := by
  obtain ⟨⟨q, sent, waiting, hq, hf, ht⟩, hphase⟩ := h
  refine ⟨⟨q, sent, waiting, hq, ?_, ht⟩, hphase⟩
  refine ⟨hf.orderly, hf.units_eq, hunits ▸ hf.numbered, hqueue ▸ hf.queue, fun more hm => ?_,
    hbatch ▸ hf.batch_le, hf.received_le, ?_, fun i hi => ?_, fun i hi => ?_, fun t hb => ?_⟩
  · rw [hbatch]
    exact hf.split more fun hd => hm (hdone hd)
  · rw [hin, hp', ← hp]
    exact hf.inFlight_eq
  · rw [hp', ← hp]
    exact hf.refused i hi
  · rw [hp'] at hi
    cases hi
  · rw [hp', ← hp]
    exact hf.blocked t hb

theorem Fed.collect (h : Fed c request solo raw p s) (hp : p.point = .collecting) :
    Goes c request solo raw (p.collect c s) := by
  have hnone : p.point.waitsFor? = none := by rw [hp]; rfl
  rw [Pump.collect]
  cases hr : s.receive with
  | mk done s' =>
    cases done with
    | some done => exact h.record hnone hr
    | none =>
      have hf := h.receive_none hr
      simp only
      split
      · exact ⟨hf.ended hnone (by simp), hf.phase⟩
      · exact hf.moveTo hnone rfl rfl rfl rfl rfl id

theorem Fed.wait (h : Fed c request solo raw p s) (hp : p.point = .waiting) :
    Goes c request solo raw (p.wait c s) := by
  have hnone : p.point.waitsFor? = none := by rw [hp]; rfl
  rw [Pump.wait]
  cases hr : s.receive with
  | mk done s' =>
    cases done with
    | some done => exact h.record hnone hr
    | none =>
      have hf := h.receive_none hr
      simp only
      split
      · exact hf.moveTo hnone rfl rfl rfl rfl rfl id
      · exact ⟨hf.ended hnone (by simp), hf.phase⟩

theorem ne_empty_of_not_blank {x : String} (h : Text.blankText x = false) : x ≠ "" := by
  rintro rfl
  cases h

theorem Fed.offer (hw : w.Lawful (Stirred solo)) (h : Fed c request solo raw p s)
    (hp : p.point.waitsFor? = none) (hd : p.sourceDone = false) {x : String}
    (hx : Text.blankText x = false) : Goes c request solo (raw ++ [x]) (p.offer w x s) := by
  obtain ⟨⟨q, sent, waiting, hq, hf, ht⟩, hphase⟩ := h
  have hids : identifiers (raw ++ [x]) = identifiers raw ++ [x] := by
    rw [identifiers_append, identifiers_of_not_blank hx]
  have hkeep := hw.keep (p.queue.offer x (w.disk s)).2.isOpen s
  have hphase' : (w.keep (p.queue.offer x (w.disk s)).2.isOpen s).state.phase.isFinal = false := by
    rw [World.state, hkeep.isFinal_eq]
    exact hphase
  have hspent : ∀ e : JobError, Ended c request solo (raw ++ [x]) false (.error e) s := by
    refine fun e => ⟨fun q' hq' => ?_, fun q' hq' => ?_, fun he => by cases he⟩
    · rw [hq] at hq'
      cases hq'
      exact hf.spent_pull hd x
    · rw [hq] at hq'
      cases hq'
      exact hf.blocked_nil hp
  have hfail : ∀ (p' : Pump) (e : JobError), p'.sourceDone = false →
      Goes c request solo (raw ++ [x])
        (p'.fail (w.keep (p.queue.offer x (w.disk s)).2.isOpen s) e) := by
    intro p' e hd'
    refine ⟨?_, hphase'⟩
    rw [hd']
    exact (hspent e).stirred hkeep
  simp only [Pump.offer]
  cases hr : (p.queue.offer x (w.disk s)).1 with
  | error e => exact hfail _ _ hd
  | ok taken =>
    cases taken with
    | false => exact hfail _ _ hd
    | true =>
      refine Fed.stirred (s := s) ⟨⟨q, sent, waiting ++ [x], hq, ?_, ht⟩, hphase⟩ hkeep
      exact { hf with
        queue := Staging.holds_offer hf.queue (ne_empty_of_not_blank hx) _ hr
        split := fun more hm => by
          have hs := hf.split (x :: more) fun hdone => by simp [hd] at hdone
          simpa [hids, List.append_assoc] using hs }

theorem Fed.stage (hw : w.Lawful (Stirred solo)) (h : Fed c request solo raw p s)
    (hp : p.point = .staging) :
    Goes c request solo (raw ++ pulled (p.asks w s)) (p.stage w c s) := by
  have hnone : p.point.waitsFor? = none := by rw [hp]; rfl
  have hnext := hw.next s
  unfold Pump.stage Pump.asks
  by_cases hstop : p.sourceDone ∨ Pump.chunk ≤ p.staged ∨ p.queue.isFull
  · rw [if_pos hstop, if_neg fun hc => hc.2 hstop, pulled_nil, List.append_nil]
    exact h.moveTo hnone rfl rfl rfl rfl rfl id
  · rw [if_neg hstop, if_pos ⟨hp, hstop⟩]
    have hd : p.sourceDone = false := by
      rw [not_or] at hstop
      simpa using hstop.1
    cases hr : w.next s with
    | mk answer s' =>
      rw [hr] at hnext
      have hs' : Fed c request solo raw p s' := h.stirred hnext
      cases answer with
      | error e =>
        rw [show pulled [.pulled (.error e)] = [] from rfl, List.append_nil]
        exact ⟨hs'.ended hnone (by simp), hs'.phase⟩
      | ok answer =>
        cases answer with
        | none =>
          rw [show pulled [.pulled (.ok none)] = [] from rfl, List.append_nil]
          exact hs'.moveTo hnone hnone rfl rfl rfl rfl fun _ => rfl
        | some x =>
          rw [show pulled [.pulled (.ok (some x))] = [x] from rfl]
          simp only
          split
          · rename_i hx
            -- A blank identifier came from the source like any other, and is passed over.
            have hids : identifiers (raw ++ [x]) = identifiers raw := by
              rw [identifiers_append, identifiers_blank hx, List.append_nil]
            obtain ⟨⟨q, sent, waiting, hq, hf, ht⟩, hphase⟩ := hs'
            refine ⟨⟨q, sent, waiting, hq, ?_, ht⟩, hphase⟩
            exact { hf with split := by rw [hids]; exact hf.split }
          · rename_i hx
            exact hs'.offer hw hnone hd (by simpa using hx)

end BatchJob.Job
