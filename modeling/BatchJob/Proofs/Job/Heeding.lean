import BatchJob.Proofs.Job.Counting
import BatchJob.Proofs.Worker.Staff

/-! Others who may stop a job. A request is several writes, one after the other, and the job may go on between any two
of them; but a pool is told to discard only once a stop was requested. For the rest it stays as open as it was, and so
a submission is turned away only after a stop. -/
namespace BatchJob.Worker.Pool

variable {p q r : Pool} {k : List Entry} {said allowed : Act → Prop}

theorem Heeds.trans (h : Heeds said p q) (h' : Heeds said q r) : Heeds said p r where
  depth := h'.depth.trans h.depth
  closed hp hr := (h'.closed hp hr).trans (h.closed hp hr)
  discarding hn := (h'.discarding hn).trans (h.discarding hn)
  shut hn := (h'.shut hn).trans (h.shut hn)
  accepting hn := (h'.accepting hn).trans (h.accepting hn)
  target hn := (h'.target hn).trans (h.target hn)

theorem heeds_leads (h : Leads allowed p k q) : Heeds allowed p q := by
  induction h with
  | refl => exact .of_same rfl rfl rfl
  | tail _ ha hr ih => exact ih.trans ((heeds_perform? hr).mono fun b hb => hb ▸ ha)

theorem discarding_setWorkers (p : Pool) (n : Nat) : (p.setWorkers n).2.discarding = p.discarding :=
  (heeds_leads (leads_setWorkers p n)).discarding fun ⟨_, he⟩ => by cases he

theorem discarding_obey {o : Order} (h : o ≠ .discard) (p : Pool) : (o.obey p).discarding = p.discarding := by
  cases o with
  | discard => exact absurd rfl h
  | workers count => exact p.discarding_setWorkers count
  | _ => rfl

end BatchJob.Worker.Pool

namespace BatchJob.Job
open Worker Control

/-- The pool discards only where a stop was requested. -/
def Warned (p : Panel) : Prop := ∀ q, p.pool = some q → q.discarding = true → p.state.stopRequested = true

/-- What becomes of a panel when others act by whom a pool is told to discard only once a stop was requested. -/
structure Heeding (p p' : Panel) : Prop extends Undisturbed p p' where
  stopped : p.state.stopRequested = true → p'.state.stopRequested = true
  manned : 0 < p.state.threadCount → 0 < p'.state.threadCount
  warned : Warned p → Warned p'

/-- A pool that lets units in, unless a stop was requested. -/
structure Inviting (stopped : Bool) (q : Pool) : Prop where
  unshut : q.shut = false
  accepting : q.accepting = true
  depth : 0 < q.depth
  discarding : q.discarding = true → stopped = true
  refused : ∀ i, q.reply i = .refused → stopped = true

/-- The pool of a job that is at work. -/
structure Staffed {σ : Type} (s : World σ) : Prop where
  threads : 0 < s.state.threadCount
  pool : ∀ q, s.panel.pool = some q → Inviting s.state.stopRequested q

variable {σ : Type} {p p' p'' : Panel} {q q' : Pool} {s s' : World σ}

namespace Heeding

theorem refl (p : Panel) : Heeding p p := ⟨.refl p, id, id, id⟩

theorem trans (h : Heeding p p') (h' : Heeding p' p'') : Heeding p p'' where
  toUndisturbed := h.toUndisturbed.trans h'.toUndisturbed
  stopped := h'.stopped ∘ h.stopped
  manned := h'.manned ∘ h.manned
  warned := h'.warned ∘ h.warned

end Heeding

theorem threadCount_mark_pos (r : Request) {t : State} (h : 0 < t.threadCount) : 0 < (r.mark t).threadCount := by
  cases r with
  | setThreads count =>
    simp only [Request.mark]
    split
    · exact h
    · show 0 < count
      omega
  | _ =>
    simp only [Request.mark]
    split
    · exact h
    · simpa using h

theorem heeding_mark (r : Request) (p : Panel) : Heeding p (p.onState (Request.mark · r)) where
  toUndisturbed := undisturbed_mark r p
  stopped h := (r.stopRequested_mark _).mpr (Or.inl h)
  manned := threadCount_mark_pos r
  warned h q hq hd := (r.stopRequested_mark _).mpr (Or.inl (h q hq hd))

/-- A single order, if it is not to discard before a stop was requested. -/
theorem heeding_obey {o : Order} (h : o = .discard → p.state.stopRequested = true) :
    Heeding p (p.onAttached (Order.obey · o)) := by
  have hstate := state_onAttached p (Order.obey · o)
  refine ⟨undisturbed_obey o p, by rw [hstate]; exact id, by rw [hstate]; exact id, fun hw q hq hd => ?_⟩
  rw [hstate]
  by_cases ho : o = .discard
  · exact h ho
  · rw [Panel.onAttached] at hq
    split at hq
    · obtain ⟨q₀, hq₀, rfl⟩ := Option.map_eq_some_iff.mp hq
      exact hw q₀ hq₀ ((Pool.discarding_obey ho q₀).symm.trans hd)
    · exact hw q hq hd

theorem heeding_orders (orders : List Order) (h : .discard ∈ orders → p.state.stopRequested = true) :
    Heeding p (orders.foldl (fun p o => p.onAttached (Order.obey · o)) p) := by
  induction orders generalizing p with
  | nil => exact .refl p
  | cons o rest ih =>
    refine (heeding_obey fun ho => h (ho ▸ List.mem_cons_self)).trans (ih fun hd => ?_)
    rw [state_onAttached]
    exact h (List.mem_cons_of_mem o hd)

theorem eq_stop_of_discard {r : Request} {t : State} (h : .discard ∈ r.orders t) : r = .stop := by
  cases r with
  | stop => rfl
  | _ =>
    simp only [Request.orders] at h
    split at h <;> simp at h

theorem heeding_handle (p : Panel) (r : Request) : Heeding p (p.handle r) := by
  rw [Panel.handle_eq_orders]
  exact (heeding_mark r p).trans (heeding_orders _ fun hd =>
    (r.stopRequested_mark p.state).mpr (Or.inr (eq_stop_of_discard hd)))

theorem heeding_handleAll (requests : List Request) (p : Panel) : Heeding p (requests.foldl .handle p) := by
  induction requests generalizing p with
  | nil => exact .refl p
  | cons r rest ih => exact (heeding_handle p r).trans (ih _)

theorem heeding_poll (watcher : Watcher) (text : Option String) (p : Panel) :
    Heeding p (watcher.poll text p).2.2 := by
  rw [Watcher.poll]
  split
  · exact .refl p
  · exact heeding_handleAll _ _

theorem heeding_advanceFor (outcome? : Task → Option Work.Outcome) (n : Nat) (p : Panel) :
    Heeding p (p.onPool (·.advanceFor outcome? n)) := by
  refine ⟨undisturbed_advanceFor outcome? n p, id, id, fun hw q hq hd => ?_⟩
  obtain ⟨q₀, hq₀, rfl⟩ := Option.map_eq_some_iff.mp hq
  obtain ⟨k, hk⟩ := Pool.leads_advanceFor outcome? n q₀
  refine hw q₀ hq₀ (Eq.trans ?_ hd)
  exact ((Pool.heeds_leads hk).discarding (by rintro (⟨_, h⟩ | ⟨_, _, h⟩) <;> cases h)).symm

theorem Inviting.leads {stopped stopped' : Bool} {journal k : List Entry} (h : Inviting stopped q)
    (hs : q.Sound journal) (hq : Pool.Leads (Others False) q k q')
    (hd : q'.discarding = true → stopped' = true)
    (hstopped : stopped = true → stopped' = true) : Inviting stopped' q' := by
  have hno : ∀ a : Act, a ≠ .discard → Others False a → a ≠ .shut ∧ a ≠ .disconnect := by
    rintro a - ((⟨_, rfl⟩ | ⟨_, _, rfl⟩) | rfl | rfl | rfl | ⟨-, _, rfl⟩) <;> simp
  have hh := Pool.heeds_leads hq
  exact {
    unshut := (hh.shut fun ho => (hno _ (by simp) ho).1 rfl).trans h.unshut
    accepting := (hh.accepting fun ho => (hno _ (by simp) ho).2 rfl).trans h.accepting
    depth := hh.depth ▸ h.depth
    discarding := hd
    refused := fun i hi => hstopped (h.refused i
      (((hs.serves_leads (fun _ => internal_of_others) hq).refused i).mp hi)) }

theorem Staffed.heeding (h : Staffed s) (hsound : ∀ q, s.panel.pool = some q → ∃ journal, q.Sound journal)
    (hs : Heeding s.panel s'.panel) : Staffed s' where
  threads := hs.manned h.threads
  pool q' hq' := by
    cases hq : s.panel.pool with
    | none =>
      rw [hs.noPool hq] at hq'
      cases hq'
    | some q =>
      obtain ⟨q₁, k, hq₁, hl⟩ := hs.pool q hq
      obtain rfl := Option.some.inj (hq₁.symm.trans hq')
      obtain ⟨journal, hj⟩ := hsound q hq
      refine (h.pool q hq).leads hj hl ?_ hs.stopped
      exact hs.warned (fun q₂ hq₂ => (h.pool q₂ hq₂).discarding) _ hq₁

theorem Inviting.stopped {stopped : Bool} (h : Inviting stopped q) (hn : q.admits = false) : stopped = true := by
  simp only [Pool.admits, h.unshut, h.accepting, Bool.not_false, Bool.true_and] at hn
  exact h.discarding (by simpa using hn)

theorem discarding_catchUp (t : State) (h : q.discarding = false) :
    (Panel.catchUp t q).discarding = t.stopRequested := by
  have htarget : ∀ p : Pool, (if p.target = t.threadCount then p else (p.setWorkers t.threadCount).2).discarding =
      p.discarding := by
    intro p
    split
    · rfl
    · exact p.discarding_setWorkers _
  rw [Panel.catchUp]
  simp only [htarget]
  cases t.stopRequested <;> cases t.paused <;> simp [Pool.pause, Pool.discard, h]

theorem inviting_create {c : Worker.Settings} (h : Pool.create c = .ok q) : Inviting false q := by
  obtain ⟨hfine, crew, -, rfl⟩ := Pool.create_eq h
  refine ⟨rfl, rfl, (Settings.pos_of_problem? hfine).2, nofun, fun i hi => ?_⟩
  simp [Pool.reply, Pool.empty] at hi

theorem staffed_attach {c : Worker.Settings} (hs : 0 < s.state.threadCount) (h : Pool.create c = .ok q) :
    Staffed { s with panel := s.panel.attach q } where
  threads := hs
  pool q' hq' := by
    obtain rfl := Option.some.inj hq'
    have hopen := inviting_create h
    have hfresh : q.discarding = false := by simpa using hopen.discarding
    have hcatch : Pool.Leads (Others False) q [] (Panel.catchUp s.state q) := leads_catchUp fun h => h.elim
    exact hopen.leads (Pool.sound_create h) hcatch (discarding_catchUp s.state hfresh).symm.trans nofun

end BatchJob.Job
