import BatchJob.Proofs.Job.Rounds

/-! Batches on their way from the staging queue into the worker pool. Whatever a step of the machine does,
they remain the parts of the identifiers that came; and when it ends with everything done, every unit was
executed. -/
namespace BatchJob.Job
open Worker Queue

variable {σ : Type} {w : Surroundings σ} {c : Settings} {request : Work.Request} {solo : Prop}
variable {raw : List String} {sent : List (List String)} {waiting : List String}
variable {p : Pump} {q : Pool} {s s' : World σ}

theorem Feeding.split_batch (h : Feeding c request solo raw sent waiting p q)
    (hc : 0 < c.batchSize) (hready : p.batch.length = c.batchSize ∨
      (p.sourceDone = true ∧ waiting = [] ∧ p.batch ≠ [])) :
    ∀ more, (p.sourceDone = true → more = []) →
      chunks c.batchSize (identifiers raw ++ more) =
        (sent ++ [p.batch]) ++ chunks c.batchSize ([] ++ waiting ++ more) := by
  intro more hm
  rw [h.split more hm, List.append_assoc p.batch, List.append_assoc sent]
  congr 1
  rcases hready with hl | ⟨hd, hw, hne⟩
  · rw [chunks_append hc hl]
    rfl
  · rw [hw, hm hd, List.append_nil, List.append_nil, chunks_of_length_le hne h.batch_le]
    simp

theorem Feeding.enter (h : Feeding c request solo raw sent waiting p q) (hc : 0 < c.batchSize)
    (hp : p.point.waitsFor? = none) (hready : p.batch.length = c.batchSize ∨
      (p.sourceDone = true ∧ waiting = [] ∧ p.batch ≠ [])) {p' : Pump}
    (hbatch : p'.batch = []) (hunits : p'.units = p.units + 1) (hqueue : p'.queue = p.queue)
    (hdone : p'.sourceDone = p.sourceDone)
    (hpoint : (q.hasRoom = true ∧ p'.point.waitsFor? = none ∧ p'.inFlight = p.inFlight + 1) ∨
      (q.hasRoom = false ∧ p'.point.waitsFor? = some q.submissions.length ∧
        p'.inFlight = p.inFlight)) :
    Feeding c request solo raw (sent ++ [p.batch]) waiting p'
      (q.enter (.batch p.units p.batch c.batchDelimiter request)) := by
  obtain ⟨journal, hj⟩ := h.orderly
  obtain ⟨hu, hsub, hcompl, hrec, hblk⟩ :=
    Pool.units_enter q (.batch p.units p.batch c.batchDelimiter request)
  have hlen : (q.enter (.batch p.units p.batch c.batchDelimiter request)).submissions.length =
      q.submissions.length + 1 := by rw [hsub, List.length_append, List.length_singleton]
  have hb := h.blocked_nil hp
  have hin := h.inFlight_eq
  rw [hp, Option.toList_none, List.length_nil] at hin
  refine ⟨⟨_, hj.enter hb _⟩, ?_, ?_, hqueue ▸ h.queue, ?_, ?_, ?_, ?_, fun i hi => ?_,
    fun serial hs => ?_, fun t ht => ?_⟩
  · rw [hu, h.units_eq, batches_snoc, h.numbered]
  · rw [hunits, h.numbered, List.length_append, List.length_singleton]
  · rw [hbatch, hdone]
    exact h.split_batch hc hready
  · rw [hbatch]
    exact Nat.zero_le _
  · rw [hrec, hcompl]
    exact h.received_le
  · rw [hrec, hlen]
    rcases hpoint with ⟨-, hpt, hfl⟩ | ⟨-, hpt, hfl⟩ <;> rw [hpt, hfl] <;> simp <;> omega
  · have hold := h.refused i (Pool.reply_enter _ hi)
    rw [hp] at hold
    cases hold
  · rcases hpoint with ⟨-, hpt, -⟩ | ⟨-, hpt, -⟩ <;> rw [hpt] at hs
    · cases hs
    · cases hs
      exact hlen.symm
  · rw [hblk, hb] at ht
    rcases hpoint with ⟨hroom, -, -⟩ | ⟨hroom, hpt, -⟩
    · simp [hroom] at ht
    · simp only [hroom, Bool.false_eq_true, if_false, List.nil_append, List.mem_singleton] at ht
      rw [ht, hpt]

theorem Feeding.isBlocked_enter (h : Feeding c request solo raw sent waiting p q)
    (hp : p.point.waitsFor? = none) (u : WorkUnit) :
    (q.enter u).isBlocked q.submissions.length = !q.hasRoom := by
  obtain ⟨-, -, -, -, hblk⟩ := Pool.units_enter q u
  rw [Pool.isBlocked, hblk, h.blocked_nil hp]
  cases q.hasRoom <;> simp

theorem Feeding.goes_refused (h : Feeding c request solo raw sent waiting p q) (p' : Pump)
    (hq : s.panel.pool = some q) (hb : q.blocked = []) (hphase : s.state.phase.isFinal = false)
    (hd : p'.sourceDone = p.sourceDone) (e : PoolError) :
    Goes c request solo raw (p'.refused s e) := by
  rw [Pump.refused]
  split
  · refine ⟨?_, hphase⟩
    rw [hd]
    exact h.ended hq hb (by simp)
  · refine ⟨?_, hphase⟩
    rw [hd]
    exact h.ended hq hb (by simp)

theorem Feeding.submit (h : Feeding c request solo raw sent waiting p q)
    (hq : s.panel.pool = some q) (ht : Tallied s.state q) (hphase : s.state.phase.isFinal = false)
    (hc : 0 < c.batchSize) (hp : p.point.waitsFor? = none) (hready : p.batch.length = c.batchSize ∨
      (p.sourceDone = true ∧ waiting = [] ∧ p.batch ≠ [])) (limit : Nat) :
    Goes c request solo raw (p.submit c request limit s) := by
  have hsubmit : s.submit (.batch p.units p.batch c.batchDelimiter request) =
      ((q.submit (.batch p.units p.batch c.batchDelimiter request)).1,
        s.setPool (q.submit (.batch p.units p.batch c.batchDelimiter request)).2) := by
    simp [World.submit, hq]
  rw [Pump.submit]
  simp only [hsubmit]
  cases hadmits : q.admits with
  | false =>
    simp only [Pool.submit, hadmits, Bool.false_eq_true, if_false]
    exact h.goes_refused { p with batch := [], units := p.units + 1 } (pool_setPool hq q) (h.blocked_nil hp)
      hphase rfl .shutDown
  | true =>
    simp only [Pool.submit, hadmits, if_true]
    obtain ⟨-, -, hcompl, hrec, -⟩ :=
      Pool.units_enter q (.batch p.units p.batch c.batchDelimiter request)
    have ht' : Tallied s.state (q.enter (.batch p.units p.batch c.batchDelimiter request)) := by
      rw [Tallied, hcompl, hrec]
      exact ht
    have hblocked : (s.setPool (q.enter (.batch p.units p.batch c.batchDelimiter request))).isBlocked
        q.submissions.length = !q.hasRoom := by
      rw [World.isBlocked, pool_setPool hq, Option.any_some]
      exact h.isBlocked_enter hp _
    simp only [hblocked]
    cases hroom : q.hasRoom with
    | false =>
      simp only [Bool.not_false, if_true]
      refine ⟨⟨_, sent ++ [p.batch], waiting, pool_setPool hq _, ?_, ht'⟩, hphase⟩
      exact h.enter hc hp hready rfl rfl rfl rfl (Or.inr ⟨hroom, rfl, rfl⟩)
    | true =>
      simp only [Bool.not_true, Bool.false_eq_true, if_false]
      refine ⟨⟨_, sent ++ [p.batch], waiting, pool_setPool hq _, ?_, ht'⟩, hphase⟩
      exact h.enter hc hp hready rfl rfl rfl rfl (Or.inl ⟨hroom, rfl, rfl⟩)

theorem Fed.fill (hw : w.Lawful (Stirred solo)) (h : Fed c request solo raw p s)
    (hc : 0 < c.batchSize) {limit : Nat} (hp : p.point = .filling limit) :
    Goes c request solo raw (p.fill w c request limit s) := by
  have hnone : p.point.waitsFor? = none := by rw [hp]; rfl
  rw [Pump.fill]
  by_cases hlimit : limit ≤ p.inFlight
  · rw [if_pos hlimit]
    exact h.moveTo hnone rfl rfl rfl rfl rfl id
  rw [if_neg hlimit]
  by_cases hfull : c.batchSize ≤ p.batch.length
  · rw [if_pos hfull]
    obtain ⟨⟨q, sent, waiting, hq, hf, ht⟩, hphase⟩ := h
    exact hf.submit hq ht hphase hc hnone (Or.inl (Nat.le_antisymm hf.batch_le hfull)) limit
  rw [if_neg hfull]
  have hkept := h.stirred (hw.keep (p.queue.poll (w.disk s)).2.isOpen s)
  obtain ⟨⟨q, sent, waiting, hq, hf, ht⟩, hphase⟩ := hkept
  have hpoll := Staging.holds_poll hf.queue (w.disk s)
  simp only
  cases hr : (p.queue.poll (w.disk s)).1 with
  | error e => exact ⟨hf.ended hq (hf.blocked_nil hnone) (by simp), hphase⟩
  | ok entry =>
    rw [hr] at hpoll
    cases entry with
    | some x =>
      obtain ⟨rest, rfl, hrest⟩ := hpoll
      refine ⟨⟨q, sent, rest, hq, ?_, ht⟩, hphase⟩
      exact { hf with
        queue := hrest
        split := fun more hm => by
          have hs := hf.split more hm
          simpa using hs
        batch_le := by
          rw [List.length_append, List.length_singleton]
          omega }
    | none =>
      obtain ⟨rfl, hempty⟩ := hpoll
      have hf' : Feeding c request solo raw sent []
          { p with queue := (p.queue.poll (w.disk s)).2 } q := { hf with queue := hempty }
      simp only
      split
      · rename_i hlast
        exact hf'.submit hq ht hphase hc hnone (Or.inr ⟨hlast.1, rfl, hlast.2⟩) limit
      · exact Fed.moveTo ⟨⟨q, sent, [], hq, hf', ht⟩, hphase⟩ hnone rfl rfl rfl rfl rfl id

theorem Feeding.giveUp? (h : Feeding c request solo raw sent waiting p q) {serial : Nat}
    (hp : p.point.waitsFor? = some serial) {q' : Pool} (hq : q.giveUp? serial = some q') :
    Feeding c request solo raw sent waiting p q' := by
  obtain ⟨hunits, hcompl, hrec, hblk, hrefused⟩ := Pool.giveUp?_serves hq
  obtain ⟨journal, hj⟩ := h.orderly
  obtain ⟨k, hk⟩ := hj.giveUp? hq
  have hlen := length_submissions_of_units hunits
  exact { h with
    orderly := ⟨_, hk⟩
    units_eq := hunits.trans h.units_eq
    received_le := by
      rw [hrec, hcompl]
      exact h.received_le
    inFlight_eq := by rw [hrec, hlen, h.inFlight_eq]
    refused := fun i hi => by
      rcases hrefused i hi with hold | rfl
      · exact h.refused i hold
      · exact hp
    last := fun i hi => by rw [hlen, h.last i hi]
    blocked := fun t ht => h.blocked t (hblk t ht) }

theorem Feeding.findRoom (h : Feeding c request solo raw sent waiting p q) {limit serial : Nat}
    (hp : p.point.waitsFor? = some serial) (hreply : q.reply serial ≠ .refused)
    (hblk : ¬ q.isBlocked serial = true) :
    Feeding c request solo raw sent waiting
      { p with point := .filling limit, inFlight := p.inFlight + 1, submitted := p.submitted + 1 } q := by
  have hin := h.inFlight_eq
  rw [hp, Option.toList_some, List.length_singleton] at hin
  exact { h with
    inFlight_eq := by
      simp only [Point.waitsFor?, Option.toList_none, List.length_nil]
      omega
    refused := fun i hi => by
      have hi' := h.refused i hi
      rw [hp, Option.some.injEq] at hi'
      exact absurd (hi' ▸ hi) hreply
    last := fun i hi => by cases hi
    blocked := fun t ht => by
      have hserial := h.blocked t ht
      rw [hp, Option.some.injEq] at hserial
      exact absurd (List.any_eq_true.mpr ⟨t, ht, by simp [hserial]⟩) hblk }

theorem Fed.send (h : Fed c request solo raw p s) {limit serial : Nat}
    (hp : p.point = .sending limit serial) : Goes c request solo raw (p.send limit serial s) := by
  have hwaits : p.point.waitsFor? = some serial := by rw [hp]; rfl
  obtain ⟨⟨q, sent, waiting, hq, hf, ht⟩, hphase⟩ := h
  have hrefused : s.isRefused serial = decide (q.reply serial = .refused) := by
    simp [World.isRefused, hq]
  have hblocked : s.isBlocked serial = q.isBlocked serial := by simp [World.isBlocked, hq]
  rw [Pump.send]
  rw [hrefused, hblocked]
  by_cases href : q.reply serial = .refused
  · simp only [href, decide_true, if_true]
    exact hf.goes_refused p hq (hf.blocked_nil_of_refused hwaits href) hphase rfl .shutDown
  simp only [href, decide_false, Bool.false_eq_true, if_false]
  by_cases hblk : q.isBlocked serial = true
  · rw [if_pos hblk]
    have hgive : s.giveUp? serial = (q.giveUp? serial).map s.setPool := by simp [World.giveUp?, hq]
    rw [hgive]
    cases hg : q.giveUp? serial with
    | none => exact ⟨⟨q, sent, waiting, hq, hf, ht⟩, hphase⟩
    | some q' =>
      obtain ⟨-, hcompl, hrec, -, -⟩ := Pool.giveUp?_serves hg
      refine ⟨⟨q', sent, waiting, pool_setPool hq q', hf.giveUp? hwaits hg, ?_⟩, hphase⟩
      rw [Tallied, hcompl, hrec]
      exact ht
  · rw [if_neg hblk]
    exact ⟨⟨q, sent, waiting, hq, hf.findRoom hwaits href hblk, ht⟩, hphase⟩

/-- With nothing left anywhere, all that came was executed. -/
theorem Feeding.whole (h : Feeding c request solo raw sent waiting p q)
    (hp : p.point.waitsFor? = none) (hbatch : p.batch = [])
    (hqueue : p.queue.isEmpty = true) (hflight : p.inFlight = 0) : Whole c request raw q := by
  obtain ⟨journal, hj⟩ := h.orderly
  have hle := hj.sound.length_completions_le
  have hrec := h.received_le
  have hin := h.inFlight_eq
  rw [hp, Option.toList_none, List.length_nil, hflight] at hin
  have hwaiting : waiting = [] := (Staging.isEmpty_iff h.queue).mp hqueue
  have hsplit := h.split [] fun _ => rfl
  simp only [List.append_nil, hbatch, hwaiting, chunks_nil] at hsplit
  refine ⟨?_, by omega, by omega, fun i hi => ?_⟩
  · rw [h.units_eq, hsplit]
  · have hwaits := h.refused i hi
    rw [hp] at hwaits
    cases hwaits

theorem Whole.counted (h : Whole c request raw q) {journal : List Entry} (hs : q.Sound journal)
    (hc : 0 < c.batchSize) {t : Control.State} (ht : Tallied t q) :
    t.succeeded + t.failed = (identifiers raw).length := by
  have hall : q.completions.take q.received = q.completions := by
    apply List.take_of_length_le
    rw [h.completions, h.received]
  have hperm := ((hs.perm_tasks h.completions).map (·.unit)).map (·.items)
  have hsum := hperm.sum_nat
  rw [Pool.map_unit_tasks, h.units, sum_items_batches, flatten_chunks hc] at hsum
  rw [ht, hall, ← hsum]
  simp [Function.comp_def]

theorem Fed.conclude (h : Fed c request solo raw p s) (hc : 0 < c.batchSize)
    (hp : p.point = .concluding) : Goes c request solo raw (p.conclude s) := by
  have hnone : p.point.waitsFor? = none := by rw [hp]; rfl
  rw [Pump.conclude]
  split
  · rename_i hover
    obtain ⟨hd, hbatch, hqueue, hflight⟩ := hover
    obtain ⟨⟨q, sent, waiting, hq, hf, ht⟩, hphase⟩ := h
    obtain ⟨journal, hj⟩ := hf.orderly
    have hwhole := hf.whole hnone hbatch hqueue hflight
    refine ⟨⟨fun q' hq' => ?_, fun q' hq' => ?_,
      fun _ => Or.inr ⟨hd, q, hq, hwhole, hwhole.counted hj.sound hc ht⟩⟩, hphase⟩
    · rw [hq] at hq'
      cases hq'
      exact hf.spent
    · rw [hq] at hq'
      cases hq'
      exact hf.blocked_nil hnone
  · split <;> exact h.moveTo hnone rfl rfl rfl rfl rfl id

theorem Fed.step (hw : w.Lawful (Stirred solo)) (h : Fed c request solo raw p s)
    (hc : 0 < c.batchSize) :
    Goes c request solo (raw ++ pulled (p.asks w s)) (p.step w c request s) := by
  have hquiet : p.point ≠ .staging → raw ++ pulled (p.asks w s) = raw := fun hne => by
    rw [Pump.asks_of_ne hne, pulled_nil, List.append_nil]
  rw [Pump.step]
  cases hp : p.point with
  | staging => exact h.stage hw hp
  | collecting =>
    rw [hquiet (by simp [hp])]
    exact h.collect hp
  | filling limit =>
    rw [hquiet (by simp [hp])]
    exact h.fill hw hc hp
  | sending limit serial =>
    rw [hquiet (by simp [hp])]
    exact h.send hp
  | concluding =>
    rw [hquiet (by simp [hp])]
    exact h.conclude hc hp
  | waiting =>
    rw [hquiet (by simp [hp])]
    exact h.wait hp

end BatchJob.Job
