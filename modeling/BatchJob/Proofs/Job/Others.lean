import BatchJob.Control.Watcher
import BatchJob.Job.Surroundings
import BatchJob.Proofs.Worker.Frame

/-! What others may do while a job runs. They request things through its panel, and the workers of its pool
work; what the job counts and how it ends is not in their hands. -/
namespace BatchJob.Job
open Worker Control

/-- The workers move, and who commands the pool opens and closes its gate, has it discard, or changes the
number of workers, unless there is to be one all the time. -/
def Others (solo : Prop) (a : Act) : Prop :=
  Pool.Proceeds a ∨ a = .pause ∨ a = .resume ∨ a = .discard ∨ (¬ solo ∧ Pool.Resizes a)

theorem internal_of_others {solo : Prop} {a : Act} (h : Others solo a) : Pool.Internal a := by
  rcases h with (⟨serial, rfl⟩ | ⟨hand, m, rfl⟩) | rfl | rfl | rfl | ⟨-, r, rfl⟩ <;> trivial

/-- What becomes of a panel when others act; a phase that is final is entered and left by the job alone. -/
structure Stirred (solo : Prop) (p p' : Panel) : Prop where
  attached : p'.attached = p.attached
  succeeded : p'.state.succeeded = p.state.succeeded
  failed : p'.state.failed = p.state.failed
  total : p'.state.total = p.state.total
  threads : solo → p'.state.threadCount = p.state.threadCount
  phase : p'.state.phase = p.state.phase ∨
    p.state.phase.isFinal = false ∧ p'.state.phase.isFinal = false
  noPool : p.pool = none → p'.pool = none
  pool : ∀ q, p.pool = some q → ∃ q' k, p'.pool = some q' ∧ Pool.Leads (Others solo) q k q'

/-- Whatever the surroundings do to the panel is allowed by a law. -/
structure Surroundings.Lawful {σ : Type} (w : Surroundings σ) (law : Panel → Panel → Prop) : Prop where
  openSource : ∀ s, law s.panel (w.openSource s).2.panel
  next : ∀ s, law s.panel (w.next s).2.panel
  closeSource : ∀ s, law s.panel (w.closeSource s).panel
  hook : ∀ stage hook, w.hook stage = some hook → ∀ o s, law s.panel (hook o s).2.panel
  closeEndpoints : ∀ s, law s.panel (w.closeEndpoints s).panel
  keep : ∀ isOpen s, law s.panel (w.keep isOpen s).panel
  meanwhile : ∀ m s, law s.panel (w.meanwhile m s).panel

variable {solo : Prop} {p p' p'' : Panel}

namespace Stirred

theorem refl (p : Panel) : Stirred solo p p :=
  ⟨rfl, rfl, rfl, rfl, fun _ => rfl, Or.inl rfl, id, fun q hq => ⟨q, [], hq, .refl q⟩⟩

theorem trans (h : Stirred solo p p') (h' : Stirred solo p' p'') : Stirred solo p p'' where
  attached := h'.attached.trans h.attached
  succeeded := h'.succeeded.trans h.succeeded
  failed := h'.failed.trans h.failed
  total := h'.total.trans h.total
  threads hs := (h'.threads hs).trans (h.threads hs)
  phase := by
    rcases h.phase with he | ⟨h1, h2⟩
    · rw [← he]
      exact h'.phase
    · rcases h'.phase with he' | ⟨_, h4⟩
      · exact Or.inr ⟨h1, he' ▸ h2⟩
      · exact Or.inr ⟨h1, h4⟩
  noPool hn := h'.noPool (h.noPool hn)
  pool q hq := by
    obtain ⟨q₁, j, hq₁, hl⟩ := h.pool q hq
    obtain ⟨q₂, k, hq₂, hl'⟩ := h'.pool q₁ hq₁
    exact ⟨q₂, j ++ k, hq₂, hl.trans hl'⟩

theorem isFinal_eq (h : Stirred solo p p') :
    p'.state.phase.isFinal = p.state.phase.isFinal := by
  rcases h.phase with he | ⟨h1, h2⟩
  · rw [he]
  · rw [h1, h2]

end Stirred

theorem stirred_onAttached {f : Pool → Pool} (hf : ∀ q, ∃ k, Pool.Leads (Others solo) q k (f q)) :
    Stirred solo p (p.onAttached f) := by
  rw [Panel.onAttached]
  split
  · refine ⟨rfl, rfl, rfl, rfl, fun _ => rfl, Or.inl rfl, fun hn => ?_, fun q hq => ?_⟩
    · simp [Panel.onPool, hn]
    · obtain ⟨k, hk⟩ := hf q
      exact ⟨f q, k, by simp [Panel.onPool, hq], hk⟩
  · exact .refl p

theorem stirred_onState {f : State → State}
    (hsucceeded : (f p.state).succeeded = p.state.succeeded)
    (hfailed : (f p.state).failed = p.state.failed) (htotal : (f p.state).total = p.state.total)
    (hthreads : solo → (f p.state).threadCount = p.state.threadCount)
    (hphase : (f p.state).phase = p.state.phase ∨
      p.state.phase.isFinal = false ∧ (f p.state).phase.isFinal = false) :
    Stirred solo p (p.onState f) :=
  ⟨rfl, hsucceeded, hfailed, htotal, hthreads, hphase, id, fun q hq => ⟨q, [], hq, .refl q⟩⟩

theorem isFinal_moved {s : State} {next : Phase} (h : s.phase.isFinal = false)
    (hn : next.isFinal = false) : (s.moved next).phase.isFinal = false := by
  simp only [State.moved, State.move, Phase.move]
  split
  · exact h
  · split
    · exact hn
    · exact h

theorem stirred_moved {next : Phase} (h : p.state.phase.isFinal = false) (hn : next.isFinal = false) :
    Stirred solo p (p.onState (·.moved next)) :=
  stirred_onState rfl rfl rfl (fun _ => rfl) (Or.inr ⟨h, isFinal_moved h hn⟩)

theorem stirred_setPaused (paused : Bool) {here there : Phase} (h : here.isFinal = false)
    (h' : there.isFinal = false) : Stirred solo p (p.onState (Panel.setPaused paused here there)) := by
  have hkeeps : (Panel.setPaused paused here there p.state).succeeded = p.state.succeeded ∧
      (Panel.setPaused paused here there p.state).failed = p.state.failed ∧
      (Panel.setPaused paused here there p.state).total = p.state.total ∧
      (Panel.setPaused paused here there p.state).threadCount = p.state.threadCount := by
    rw [Panel.setPaused]
    simp only
    split <;> exact ⟨rfl, rfl, rfl, rfl⟩
  obtain ⟨hsucceeded, hfailed, htotal, hthreads⟩ := hkeeps
  refine stirred_onState hsucceeded hfailed htotal (fun _ => hthreads) ?_
  by_cases hp : p.state.phase = here
  · have hmoved : Panel.setPaused paused here there p.state =
        ({ p.state with paused := paused } : State).moved there := if_pos hp
    have hnow : p.state.phase.isFinal = false := by rw [hp, h]
    rw [hmoved]
    exact Or.inr ⟨hnow, isFinal_moved hnow h'⟩
  · have hstays : Panel.setPaused paused here there p.state = { p.state with paused := paused } :=
      if_neg hp
    rw [hstays]
    exact Or.inl rfl

theorem stirred_handle {request : Request} (hs : solo → ∀ n, request ≠ .setThreads n) :
    Stirred solo p (p.handle request) := by
  cases request with
  | pause =>
    simp only [Panel.handle, Panel.pause]
    split
    · exact .refl p
    · refine (stirred_setPaused true rfl rfl).trans (stirred_onAttached fun q => ⟨[], ?_⟩)
      exact Pool.Leads.single (a := .pause) (Or.inr (Or.inl rfl)) rfl
  | resume =>
    simp only [Panel.handle, Panel.resume]
    split
    · exact .refl p
    · refine (stirred_setPaused false rfl rfl).trans (stirred_onAttached fun q => ⟨[], ?_⟩)
      exact Pool.Leads.single (a := .resume) (Or.inr (Or.inr (Or.inl rfl))) rfl
  | stop =>
    simp only [Panel.handle, Panel.stop]
    split
    · exact .refl p
    · refine (stirred_onState rfl rfl rfl (fun _ => rfl) (Or.inl rfl)).trans
        (stirred_onAttached fun q => ⟨[], ?_⟩)
      have h1 : Pool.Leads (Others solo) q [] q.discard :=
        Pool.Leads.single (a := .discard) (Or.inr (Or.inr (Or.inr (Or.inl rfl)))) rfl
      exact h1.tail (a := .resume) (Or.inr (Or.inr (Or.inl rfl))) rfl
  | setThreads n =>
    have hn : ¬ solo := fun h => hs h n rfl
    simp only [Panel.handle, Panel.setThreads]
    split
    · exact .refl p
    · refine (stirred_onState rfl rfl rfl (fun h => absurd h hn) (Or.inl rfl)).trans
        (stirred_onAttached fun q => ⟨[], ?_⟩)
      exact (Pool.leads_setWorkers q n).mono fun a ha => Or.inr (Or.inr (Or.inr (Or.inr ⟨hn, ha⟩)))

/-- A new pool hears of what was requested before it was there. -/
theorem leads_catchUp {q : Pool} {t : State} (h : solo → q.target = t.threadCount) :
    Pool.Leads (Others solo) q [] (Panel.catchUp t q) := by
  have hdiscard : Pool.Leads (Others solo) q [] (if t.stopRequested then q.discard else q) := by
    split
    · exact Pool.Leads.single (a := .discard) (Or.inr (Or.inr (Or.inr (Or.inl rfl)))) rfl
    · exact .refl q
  have hpause : ∀ q : Pool, Pool.Leads (Others solo) q [] (if t.paused then q.pause else q) := by
    intro q
    split
    · exact Pool.Leads.single (a := .pause) (Or.inr (Or.inl rfl)) rfl
    · exact .refl q
  have htarget : ∀ q : Pool, (solo → q.target = t.threadCount) →
      Pool.Leads (Others solo) q [] (if q.target = t.threadCount then q else (q.setWorkers t.threadCount).2) := by
    intro q hq
    split
    · exact .refl q
    · rename_i hne
      have hmany : ¬ solo := fun hs => hne (hq hs)
      exact (Pool.leads_setWorkers q t.threadCount).mono fun a ha =>
        Or.inr (Or.inr (Or.inr (Or.inr ⟨hmany, ha⟩)))
  refine (hdiscard.trans (hpause _)).trans (htarget _ fun hs => ?_)
  rw [← h hs]
  split <;> split <;> rfl

theorem stirred_handleAll (hs : ¬ solo) (requests : List Request) (p : Panel) :
    Stirred solo p (requests.foldl .handle p) := by
  induction requests generalizing p with
  | nil => exact .refl p
  | cons request rest ih => exact (stirred_handle fun h => absurd h hs).trans (ih _)

theorem stirred_poll (hs : ¬ solo) (w : Watcher) (text : Option String) (p : Panel) :
    Stirred solo p (w.poll text p).2.2 := by
  rw [Watcher.poll]
  split
  · exact .refl p
  · exact stirred_handleAll hs _ _

theorem stirred_advanceFor (outcome? : Task → Option Work.Outcome) (n : Nat) (p : Panel) :
    Stirred solo p (p.onPool (·.advanceFor outcome? n)) := by
  refine ⟨rfl, rfl, rfl, rfl, fun _ => rfl, Or.inl rfl, fun hn => ?_, fun q hq => ?_⟩
  · simp [Panel.onPool, hn]
  · obtain ⟨k, hk⟩ := Pool.leads_advanceFor outcome? n q
    exact ⟨_, k, by simp [Panel.onPool, hq], hk.mono fun a ha => Or.inl ha⟩

end BatchJob.Job
