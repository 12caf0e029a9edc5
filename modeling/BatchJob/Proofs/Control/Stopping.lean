import BatchJob.Proofs.Control.Office
import BatchJob.Proofs.Worker.Still

/-! Stopping a job that is paused. The stop opens the gate, so that the workers who wait there go home; by then the
pool discards, and none of them starts the unit it has in hand. -/
namespace BatchJob.Control
open Work Worker

variable {allowed : List Task} {x y : Office} {e : Event} {es : List Event}

/-- Whoever stops the job has still to discard, behind a closed gate, or has done so. Only what is `allowed` has
started by then or can start. -/
inductive Stopping (allowed : List Task) (x : Office) : Prop
  | before (h : x.floor.Barred allowed) (hr : x.shift.resize = .done) (ho : x.shift.orders = [.discard, .resume])
  | after (hd : x.pool.discarding = true) (hs : starts x.floor.journal ⊆ allowed)

theorem Stopping.started (h : Stopping allowed x) : starts x.floor.journal ⊆ allowed := by
  cases h with
  | before h => exact h.started
  | after _ hs => exact hs

theorem Stopping.step? (h : Stopping allowed x) (he : e ≠ .deed (.act .resume)) (hy : x.step? e = some y) :
    Stopping allowed y := by
  obtain ⟨hs, -⟩ := Office.step?_eq_some hy
  cases h with
  | before h hr ho =>
    cases e with
    | request r =>
      obtain ⟨hidle, -⟩ := Shift.settled_give hs
      rw [(Shift.isIdle_iff.mp hidle).2] at ho
      cases ho
    | proceed =>
      obtain ⟨o, rest, -, hnext, hshift⟩ | ⟨hne, -⟩ := Shift.proceed?_cases hs
      · rw [ho] at hnext
        cases hnext
        have hjournal : y.floor.journal = x.floor.journal := congrArg (·.floor.journal) hshift
        have hpool : y.pool = x.pool.discard := congrArg Shift.pool hshift
        exact .after (hpool ▸ rfl) (hjournal ▸ h.started)
      · exact absurd hr hne
    | deed d =>
      obtain ⟨hf, hr', ho'⟩ := Shift.step?_deed hs
      exact .before (h.step? (fun hd => he (hd ▸ rfl)) hf) (hr'.trans hr) (ho'.trans ho)
  | after hd hstarts =>
    obtain ⟨ds, hds⟩ := Shift.floor_step? hs
    obtain ⟨hdiscarding, hsame⟩ := Floor.still_discarding hd hds
    exact .after hdiscarding (hsame ▸ hstarts)

/-- A job that was stopped has a pool that discards, or is about to. -/
def Office.Stopped (x : Office) : Prop :=
  x.state.stopRequested = true → x.pool.discarding = true ∨ .discard ∈ x.shift.orders

theorem Office.stopped_attached (s : State) (q : Pool) : (attached s q).Stopped := fun hstop =>
  Or.inr (by simp [attached, attachOrders, show s.stopRequested = true from hstop])

theorem Office.Stopped.step? (h : x.Stopped) (hy : x.step? e = some y) : y.Stopped := by
  obtain ⟨hs, hstate⟩ := step?_eq_some hy
  have hstays : x.pool.discarding = true → y.pool.discarding = true := fun hd => by
    obtain ⟨ds, hds⟩ := Shift.floor_step? hs
    exact (Floor.still_discarding hd hds).1
  intro hstop
  rw [hstate] at hstop
  cases e with
  | request r =>
    obtain ⟨hidle, -⟩ := Shift.settled_give hs
    have hnone : .discard ∉ x.shift.orders := by
      rw [(Shift.isIdle_iff.mp hidle).2]
      exact List.not_mem_nil
    by_cases hbefore : x.state.stopRequested = true
    · exact Or.inl (hstays ((h hbefore).resolve_right hnone))
    · obtain rfl := ((r.stopRequested_mark _).mp hstop).resolve_left hbefore
      simp only [Event.turn, Shift.step?, hidle, if_true, Option.some.injEq] at hs
      rw [← hs]
      exact Or.inr (by simp [Request.orders, hbefore])
  | proceed =>
    rcases h hstop with hd | hm
    · exact Or.inl (hstays hd)
    · obtain ⟨o, rest, -, ho, hshift⟩ | ⟨-, hshift⟩ := Shift.proceed?_cases hs
      · rw [ho] at hm
        rcases List.mem_cons.mp hm with rfl | hm
        · exact Or.inl (by simp only [pool, hshift]; rfl)
        · exact Or.inr (by rw [hshift]; exact hm)
      · exact Or.inr (by rw [hshift]; exact hm)
  | deed d =>
    obtain ⟨-, -, ho⟩ := Shift.step?_deed hs
    exact (h hstop).imp hstays fun hm => ho ▸ hm

theorem Office.Stopped.run? (h : x.Stopped) (hy : x.run? es = some y) : y.Stopped :=
  runs?_induction (fun _ _ _ _ hz hz' => hz.step? hz') hy (fun _ _ => trivial) h

/-- What the stop of a paused job comes to: only what had passed the gate starts, and nothing of what was queued or
waited there. -/
structure StopsCold (x y : Office) : Prop where
  started : starts y.floor.journal ⊆ starts x.floor.journal ++ x.pool.passed
  waiting : ∀ t ∈ x.pool.queue ++ x.pool.held, t ∉ starts y.floor.journal
  discarding : y.isIdle = true → y.pool.discarding = true

theorem stopping_of_stop (hs : x.pool.Sound x.floor.journal) (hx : x.Stopped) (hg : x.pool.gate.closed = true)
    (hy : x.step? (.request .stop) = some y) : Stopping (starts x.floor.journal ++ x.pool.passed) y := by
  obtain ⟨hgive, -⟩ := Office.step?_eq_some hy
  obtain ⟨hidle, -⟩ := Shift.settled_give hgive
  obtain ⟨hresize, horders⟩ := Shift.isIdle_iff.mp hidle
  simp only [Event.turn, Shift.step?, hidle, if_true, Option.some.injEq] at hgive
  have hfloor : y.floor = x.floor := by
    rw [Office.floor, ← hgive]
    rfl
  by_cases hstop : x.state.stopRequested = true
  · -- It was stopped before, and has discarded.
    have hd : x.floor.pool.discarding = true :=
      (hx hstop).resolve_right (by
        rw [horders]
        exact List.not_mem_nil)
    rw [← hfloor] at hd
    exact .after hd (hfloor ▸ List.subset_append_left _ _)
  · have hbarred : x.floor.Barred (starts x.floor.journal ++ x.pool.passed) :=
      ⟨hs, hg, List.subset_append_right _ _, List.subset_append_left _ _⟩
    refine .before (hfloor ▸ hbarred) ?_ ?_
    · rw [← hgive]
      exact hresize
    · rw [← hgive]
      simp [Request.orders, hstop]

theorem stopsCold_of_stop (hs : x.pool.Sound x.floor.journal) (hx : x.Stopped) (hg : x.pool.gate.closed = true)
    (he : .deed (.act .resume) ∉ es) (hy : x.run? (.request .stop :: es) = some y) : StopsCold x y := by
  obtain ⟨x₁, h₁, hrest⟩ := Option.bind_eq_some_iff.mp hy
  have hlast : Stopping (starts x.floor.journal ++ x.pool.passed) y := by
    refine runs?_induction (fun _ e _ (he : e ≠ .deed (.act .resume)) hz hz' => hz.step? he hz') hrest ?_
      (stopping_of_stop hs hx hg h₁)
    rintro e hm rfl
    exact he hm
  refine ⟨hlast.started, fun t ht hm => ?_, fun hidle => ?_⟩
  · obtain ⟨hstarted, hpassed⟩ := hs.not_started ht
    exact (List.mem_append.mp (hlast.started hm)).elim hstarted hpassed
  · cases hlast with
    | before _ _ ho =>
      rw [(Shift.isIdle_iff.mp hidle).2] at ho
      cases ho
    | after hd _ => exact hd

/-- Nothing starts behind a closed gate or after a discard, and nothing that waits starts when a paused job is
stopped. -/
theorem gated_of_run {c : Worker.Settings} {q : Pool} (hq : Pool.create c = .ok q) {s : State}
    (hx : (Office.attached s q).run? es = some x) :
    x.floor.Gated ∧ (x.pool.gate.closed = true → ∀ es' y, .deed (.act .resume) ∉ es' →
      x.run? (.request .stop :: es') = some y → StopsCold x y) := by
  obtain ⟨ds, hds⟩ := Office.floor_run? hx
  have hsound : x.pool.Sound x.floor.journal := Floor.sound_run? (Pool.sound_create hq) hds
  have hstopped : x.Stopped := (Office.stopped_attached s q).run? hx
  exact ⟨Floor.gated_of_sound hsound, fun hg _ _ he hy => stopsCold_of_stop hsound hstopped hg he hy⟩

/-- A caller submits and finds room. -/
def submitting (u : WorkUnit) (serial : Nat) : List Event :=
  [.deed (.ask u), .deed (.connect u), .deed (.announce u), .deed (.act (.proceed serial))]

/-- One worker executes a unit, another comes to the gate with one after it was closed, and a third unit is
queued. -/
def pausing (a b c : WorkUnit) : List Event :=
  submitting a 0 ++ ([.move ⟨0, .arriving⟩ .pass, .move ⟨0, .looking⟩ .look, .move ⟨0, .choosing⟩ .claim,
    .move ⟨0, .holding ⟨0, a⟩⟩ .pass, .move ⟨0, .starting ⟨0, a⟩⟩ .start, .move ⟨1, .arriving⟩ .pass,
    .move ⟨1, .looking⟩ .look].map (.deed ∘ .act)) ++ submitting b 1 ++
    [.request .pause, .proceed, .deed (.act (.move ⟨1, .choosing⟩ .claim))] ++ submitting c 2

theorem gated_of_stopWhilePaused :
    ∃ q x y, Pool.create ⟨2, 4, Worker.Settings.minStackSize, 5⟩ = .ok q ∧
      (Office.attached (.fresh 2) q).run? (pausing (.single 0 "a" .plain) (.single 1 "b" .plain)
        (.single 2 "c" .plain)) = some x ∧
      x.pool.atWork = [⟨0, .single 0 "a" .plain⟩] ∧ x.pool.held = [⟨1, .single 1 "b" .plain⟩] ∧
      x.run? [.request .stop, .proceed, .proceed,
        .deed (.act (.move ⟨1, .holding ⟨1, .single 1 "b" .plain⟩⟩ .pass)),
        .deed (.act (.move ⟨1, .starting ⟨1, .single 1 "b" .plain⟩⟩ .start))] = some y ∧
      y.pool.gate.closed = false ∧ StopsCold x y ∧
      ⟨1, .single 1 "b" .plain⟩ ∉ starts y.floor.journal := by
  obtain ⟨q, hq⟩ : ∃ q, Pool.create ⟨2, 4, Worker.Settings.minStackSize, 5⟩ = .ok q := ⟨_, rfl⟩
  obtain ⟨x, hx, hwork, hheld, hg, y, hy, hopen⟩ : ∃ x, (Office.attached (.fresh 2) q).run?
      (pausing (.single 0 "a" .plain) (.single 1 "b" .plain) (.single 2 "c" .plain)) = some x ∧
      x.pool.atWork = [⟨0, .single 0 "a" .plain⟩] ∧ x.pool.held = [⟨1, .single 1 "b" .plain⟩] ∧
      x.pool.gate.closed = true ∧
      ∃ y, x.run? [.request .stop, .proceed, .proceed,
        .deed (.act (.move ⟨1, .holding ⟨1, .single 1 "b" .plain⟩⟩ .pass)),
        .deed (.act (.move ⟨1, .starting ⟨1, .single 1 "b" .plain⟩⟩ .start))] = some y ∧
        y.pool.gate.closed = false := by
    cases hq
    exact ⟨_, rfl, rfl, rfl, rfl, _, rfl, rfl⟩
  have hcold := (gated_of_run hq hx).2 hg _ y (by simp) hy
  exact ⟨q, x, y, hq, hx, hwork, hheld, hy, hopen, hcold, hcold.waiting _ (by simp [hheld])⟩

end BatchJob.Control
