import BatchJob.Proofs.Control.Standing
import Mathlib.Data.List.Induction

/-! The phase of a job, its flag and the gate of its pool tell the same, with one exception: whoever stops a paused
job clears the flag and opens the gate, and leaves the phase as it is. The exception lasts until somebody pauses or
resumes the job. -/
namespace BatchJob.Control
open Worker

/-- The job was paused when it was stopped, and nobody paused or resumed it since. -/
def StoppedPaused (s : State) (rs : List Request) : Prop :=
  s.stopRequested = false ∧ ∃ before after, rs = before ++ .stop :: after ∧ .stop ∉ before ∧
    (Request.markAll s before).paused = true ∧ .pause ∉ after ∧ .resume ∉ after

variable {s : State} {rs : List Request} {r : Request}

theorem markAll_snoc (s : State) (rs : List Request) (r : Request) :
    Request.markAll s (rs ++ [r]) = r.mark (Request.markAll s rs) := by
  simp [Request.markAll]

theorem stoppedPaused_snoc : StoppedPaused s (rs ++ [r]) ↔
    (StoppedPaused s rs ∧ r ≠ .pause ∧ r ≠ .resume) ∨
      (r = .stop ∧ s.stopRequested = false ∧ .stop ∉ rs ∧ (Request.markAll s rs).paused = true) := by
  constructor
  · rintro ⟨hs, before, after, heq, hbefore, hpaused, hpause, hresume⟩
    rcases List.eq_nil_or_concat after with rfl | ⟨after, last, rfl⟩
    · obtain ⟨rfl, hr⟩ := List.append_inj' heq rfl
      exact Or.inr ⟨List.singleton_inj.mp hr, hs, hbefore, hpaused⟩
    · rw [List.concat_eq_append, ← List.cons_append, ← List.append_assoc] at heq
      obtain ⟨rfl, hr⟩ := List.append_inj' heq rfl
      obtain rfl := List.singleton_inj.mp hr
      simp only [List.concat_eq_append, List.mem_append, List.mem_singleton, not_or] at hpause hresume
      exact Or.inl ⟨⟨hs, before, after, rfl, hbefore, hpaused, hpause.1, hresume.1⟩, Ne.symm hpause.2,
        Ne.symm hresume.2⟩
  · rintro (⟨⟨hs, before, after, rfl, hbefore, hpaused, hpause, hresume⟩, hnp, hnr⟩ | ⟨rfl, hs, hno, hpaused⟩)
    · refine ⟨hs, before, after ++ [r], by simp, hbefore, hpaused, ?_, ?_⟩
      · simpa [hpause] using Ne.symm hnp
      · simpa [hresume] using Ne.symm hnr
    · exact ⟨hs, rs, [], rfl, hno, hpaused, List.not_mem_nil, List.not_mem_nil⟩

theorem not_stoppedPaused_snoc (h : r = .pause ∨ r = .resume) : ¬ StoppedPaused s (rs ++ [r]) := by
  rw [stoppedPaused_snoc]
  rcases h with rfl | rfl <;> simp

theorem stopRequested_markAll (s : State) (rs : List Request) :
    (Request.markAll s rs).stopRequested = true ↔ s.stopRequested = true ∨ .stop ∈ rs := by
  induction rs using List.reverseRecOn with
  | nil => simp [Request.markAll]
  | append_singleton rs r ih =>
    rw [markAll_snoc, Request.stopRequested_mark, ih, List.mem_append, List.mem_singleton, or_assoc,
      eq_comm (a := r)]

def State.goesOn (s : State) : Prop := s.phase = .running ∨ s.phase = .paused

theorem phase_mark_pause (h : s.goesOn) :
    (Request.pause.mark s).phase = .paused ∧ (Request.pause.mark s).paused = true := by
  rcases h with h | h <;>
    simp [Request.mark, Panel.setPaused, h, Phase.isFinal, State.moved, State.move, Phase.move, Phase.canMoveTo]

theorem phase_mark_resume (h : s.goesOn) :
    (Request.resume.mark s).phase = .running ∧ (Request.resume.mark s).paused = false := by
  rcases h with h | h <;>
    simp [Request.mark, Panel.setPaused, h, Phase.isFinal, State.moved, State.move, Phase.move, Phase.canMoveTo]

/-- What the phase and the flag tell after the requests. -/
structure Signals (s : State) (rs : List Request) : Prop where
  goesOn : (Request.markAll s rs).goesOn
  apart : StoppedPaused s rs → (Request.markAll s rs).phase = .paused ∧ (Request.markAll s rs).paused = false
  together : ¬ StoppedPaused s rs →
    ((Request.markAll s rs).phase = .paused ↔ (Request.markAll s rs).paused = true)

theorem Signals.same (h : Signals s rs) (hp : (Request.markAll s (rs ++ [r])).phase = (Request.markAll s rs).phase)
    (hf : (Request.markAll s (rs ++ [r])).paused = (Request.markAll s rs).paused)
    (hr : StoppedPaused s (rs ++ [r]) ↔ StoppedPaused s rs) : Signals s (rs ++ [r]) := by
  refine ⟨?_, ?_, ?_⟩
  · rw [State.goesOn, hp]
    exact h.goesOn
  · rw [hp, hf, hr]
    exact h.apart
  · rw [hp, hf, hr]
    exact h.together

theorem Signals.stop (h : Signals s rs) : Signals s (rs ++ [.stop]) := by
  have hstopped := stopRequested_markAll s rs
  by_cases hs : (Request.markAll s rs).stopRequested = true
  · have hmark : Request.markAll s (rs ++ [.stop]) = Request.markAll s rs := by
      rw [markAll_snoc]
      simp [Request.mark, hs]
    refine h.same (congrArg _ hmark) (congrArg _ hmark) ?_
    rw [stoppedPaused_snoc]
    have hno : ¬ (s.stopRequested = false ∧ .stop ∉ rs) := by
      rintro ⟨hfalse, hnone⟩
      rcases hstopped.mp hs with htrue | hm
      · rw [hfalse] at htrue
        cases htrue
      · exact hnone hm
    constructor
    · rintro (⟨hsp, -⟩ | ⟨-, hfalse, hnone, -⟩)
      · exact hsp
      · exact absurd ⟨hfalse, hnone⟩ hno
    · exact fun hsp => Or.inl ⟨hsp, by simp, by simp⟩
  · have hmark : Request.markAll s (rs ++ [.stop]) =
        { Request.markAll s rs with stopRequested := true, paused := false } := by
      rw [markAll_snoc]
      simp [Request.mark, hs]
    obtain ⟨hfalse, hnone⟩ := not_or.mp (hs ∘ hstopped.mpr)
    have hno : ¬ StoppedPaused s rs := by
      rintro ⟨-, before, after, rfl, -⟩
      exact hnone (by simp)
    have htogether := h.together hno
    refine ⟨hmark ▸ h.goesOn, fun hsp => ?_, fun hsp => ?_⟩
    · rcases stoppedPaused_snoc.mp hsp with ⟨hsp, -⟩ | ⟨-, -, -, hpaused⟩
      · exact absurd hsp hno
      · rw [hmark]
        exact ⟨htogether.mpr hpaused, rfl⟩
    · have hpaused : (Request.markAll s rs).paused = false := by
        by_contra hyes
        exact hsp (stoppedPaused_snoc.mpr (Or.inr ⟨rfl, by simpa using hfalse, hnone, by simpa using hyes⟩))
      rw [hmark]
      rw [hpaused] at htogether
      exact htogether

/-- After any requests to a job that goes on, the phase and the flag tell the same, unless it was stopped while it
was paused and nobody paused or resumed it since. -/
theorem signals_markAll (h : s.goesOn) (hs : s.phase = .paused ↔ s.paused = true) (rs : List Request) :
    Signals s rs := by
  induction rs using List.reverseRecOn with
  | nil =>
    refine ⟨h, ?_, fun _ => hs⟩
    rintro ⟨-, before, after, heq, -⟩
    simp at heq
  | append_singleton rs r ih =>
    cases r with
    | pause =>
      obtain ⟨hphase, hflag⟩ := phase_mark_pause ih.goesOn
      rw [← markAll_snoc] at hphase hflag
      exact ⟨Or.inr hphase, fun hsp => absurd hsp (not_stoppedPaused_snoc (Or.inl rfl)),
        fun _ => by simp [hphase, hflag]⟩
    | resume =>
      obtain ⟨hphase, hflag⟩ := phase_mark_resume ih.goesOn
      rw [← markAll_snoc] at hphase hflag
      exact ⟨Or.inl hphase, fun hsp => absurd hsp (not_stoppedPaused_snoc (Or.inr rfl)),
        fun _ => by simp [hphase, hflag]⟩
    | stop => exact ih.stop
    | setThreads count =>
      have hmark : ∀ z : State, ((Request.setThreads count).mark z).phase = z.phase ∧
          ((Request.setThreads count).mark z).paused = z.paused := by
        intro z
        simp only [Request.mark]
        split <;> exact ⟨rfl, rfl⟩
      obtain ⟨hphase, hflag⟩ := hmark (Request.markAll s rs)
      rw [← markAll_snoc] at hphase hflag
      refine ih.same hphase hflag ?_
      simp [stoppedPaused_snoc]

/-- Whoever looks at the job and its pool finds that phase, flag and gate tell the same. -/
structure Office.InStep (x : Office) : Prop where
  phase : ∀ now, (x.state.snapshot now).phase = .paused ↔ (x.state.snapshot now).paused = true
  gate : ∀ now, (x.state.snapshot now).paused = true ↔ x.pool.gate.closed = true

/-- Phase, flag and gate tell the same after any requests to a running job, and the flag and the gate always do. The
one exception are jobs that were stopped while they were paused and neither paused nor resumed since. -/
theorem inStep_iff_of_requests {x y : Office} {es : List Event} (hx : x.isIdle = true)
    (hphase : x.state.phase = .running) (hflag : x.state.paused = false) (hgate : x.pool.gate.closed = false)
    (hrun : x.run? es = some y) (he : ∀ e ∈ es, e.attends = true) (hy : y.isIdle = true) :
    y.state.goesOn ∧ y.state.paused = y.pool.gate.closed ∧
      (y.InStep ↔ ¬ StoppedPaused x.state (requests es)) := by
  have hsignals : Signals x.state (requests es) :=
    signals_markAll (Or.inl hphase) (by simp [hphase, hflag]) (requests es)
  have hstate := Office.state_run? hrun
  have hsame : y.state.paused = y.pool.gate.closed := by
    have hkept : ∀ (s : State) (z : Setting) (r : Request), z.closed = s.paused →
        ((r.orders s).foldl Order.settle z).closed = (r.mark s).paused := fun _ _ r h => r.closed_orders h
    have hsettled := Office.kept_run? hkept hrun he (by
      rw [Shift.settled_of_isIdle hx, hflag]
      exact hgate)
    rw [Shift.settled_of_isIdle hy] at hsettled
    exact hsettled.symm
  refine ⟨hstate ▸ hsignals.goesOn, hsame, fun hin hsp => ?_, fun hsp => ⟨fun _ => ?_, fun _ => ?_⟩⟩
  · obtain ⟨hp, hf⟩ := hsignals.apart hsp
    have hread : y.state.phase = .paused ↔ y.state.paused = true := hin.phase .zero
    rw [hstate, hp, hf] at hread
    simp at hread
  · show y.state.phase = .paused ↔ y.state.paused = true
    rw [hstate]
    exact hsignals.together hsp
  · show y.state.paused = true ↔ y.pool.gate.closed = true
    rw [hsame]

def runningAlone (q : Pool) : Office := .attached ((State.fresh 1).moved .running) q

/-- Paused, stopped, and resumed. -/
theorem inStep_of_resume :
    ∃ q y, Pool.create ⟨1, 4, Worker.Settings.minStackSize, 5⟩ = .ok q ∧
      (runningAlone q).run? [.request .pause, .proceed, .request .stop, .proceed, .proceed, .request .resume,
        .proceed] = some y ∧ y.state.phase = .running ∧ y.InStep := by
  obtain ⟨q, hq⟩ : ∃ q, Pool.create ⟨1, 4, Worker.Settings.minStackSize, 5⟩ = .ok q := ⟨_, rfl⟩
  obtain ⟨y, hy, hidle, hphase⟩ : ∃ y, (runningAlone q).run? [.request .pause, .proceed, .request .stop, .proceed,
      .proceed, .request .resume, .proceed] = some y ∧ y.isIdle = true ∧ y.state.phase = .running := by
    cases hq
    exact ⟨_, rfl, rfl, rfl⟩
  have hstart : (runningAlone q).isIdle = true ∧ (runningAlone q).pool.gate.closed = false := by
    cases hq
    exact ⟨rfl, rfl⟩
  have hresumed : ¬ StoppedPaused (runningAlone q).state ([.pause, .stop] ++ [.resume]) :=
    not_stoppedPaused_snoc (Or.inr rfl)
  exact ⟨q, y, hq, hy, hphase,
    (inStep_iff_of_requests hstart.1 rfl rfl hstart.2 hy (by decide) hidle).2.2.mpr hresumed⟩

/-- Stopped while it was paused: the gate is open and the flag is cleared, but the phase says that it is paused. -/
theorem not_inStep_of_stop :
    ∃ q y, Pool.create ⟨1, 4, Worker.Settings.minStackSize, 5⟩ = .ok q ∧ (runningAlone q).isIdle = true ∧
      (runningAlone q).state.phase = .running ∧ (runningAlone q).state.paused = false ∧
      (runningAlone q).pool.gate.closed = false ∧
      (runningAlone q).run? [.request .pause, .proceed, .request .stop, .proceed, .proceed] = some y ∧
      y.isIdle = true ∧ y.state.phase = .paused ∧ y.state.paused = false ∧ y.pool.gate.closed = false ∧
      ¬ y.InStep := by
  obtain ⟨q, hq⟩ : ∃ q, Pool.create ⟨1, 4, Worker.Settings.minStackSize, 5⟩ = .ok q := ⟨_, rfl⟩
  cases hq
  refine ⟨_, _, rfl, rfl, rfl, rfl, rfl, rfl, rfl, rfl, rfl, rfl, fun h => ?_⟩
  have hread := (h.phase .zero).mp rfl
  cases hread

end BatchJob.Control
