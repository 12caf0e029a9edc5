import BatchJob.Proofs.Worker.Staff

/-! The end of a pool that shuts down and runs its backlog first. Whatever changes of the number of workers are
under way, the last worker leaves after everything that was accepted has been executed, and it leaves in the end. -/
namespace BatchJob.Worker
open Work

/-- Whoever closes the gate. -/
def Turn.pauses : Turn → Bool
  | .give orders => decide (.pause ∈ orders)
  | .deed (.act .pause) => true
  | _ => false

/-- How a pool shuts down that runs its backlog first. -/
def shuttingDown : List Turn := [.deed (.act .shut), .deed (.act .resume), .deed (.act .disconnect)]

/-- The strides come to an end, and then the last worker has left and whatever was accepted was executed. -/
structure Floor.Drains (f : Floor) : Prop where
  bounded : ∀ ds g, (∀ d ∈ ds, d.isStride = true) → f.run? ds = some g → ds.length ≤ f.effort
  ends : ∀ ds g, (∀ d ∈ ds, d.isStride = true) → f.run? ds = some g →
    (∀ d, d.isStride = true → g.step? d = none) →
    g.pool.hands = [] ∧ ∀ i, g.pool.isAccepted i → g.pool.Executed i

theorem Deed.spares_of_isStride {d : Deed} (h : d.isStride = true) : d.spares = true := by
  cases d with
  | act a => cases a <;> first | rfl | cases h
  | _ => rfl

theorem Deed.attends_of_isStride {d : Deed} (h : d.isStride = true) : d.attends = true := by
  cases d with
  | act a => cases a <;> first | rfl | cases h
  | _ => rfl

namespace Shift
open Pool

variable {s s' : Shift} {t : Turn} {ts : List Turn}

theorem Staffed.drains (h : s.Staffed) (hg : s.pool.gate.closed = false) (ha : s.pool.accepting = false) :
    s.floor.Drains := by
  constructor
  · intro ds g hd hds
    have := Floor.effort_run? h.sound hd hds
    omega
  · intro ds g hd hds hend
    have hrun := run?_deeds hds
    have hthere : ({ s with floor := g } : Shift).Staffed := h.run? (by
      intro t ht
      obtain ⟨d, hm, rfl⟩ := List.mem_map.mp ht
      exact Deed.spares_of_isStride (hd d hm)) hrun
    have hset := Floor.setting_run? (fun d hm => Deed.attends_of_isStride (hd d hm)) hds
    have hopen : g.pool.gate.closed = false := (congrArg Setting.closed hset).trans hg
    have hhands : g.pool.hands = [] := by
      by_contra hne
      obtain ⟨d, g', hstride, hstep⟩ :=
        Floor.exists_stride hne hopen (Floor.accepting_run? ha hds) hthere.depth
      rw [hend d hstride] at hstep
      cases hstep
    exact ⟨hhands, hthere.executed hhands⟩

theorem opened_step? (ho : .pause ∉ s.orders) (ht : t.pauses = false) (hs : s.step? t = some s') :
    .pause ∉ s'.orders ∧
      (s.pool.gate.closed = false ∨ t = .deed (.act .resume) → s'.pool.gate.closed = false) := by
  cases t with
  | give orders =>
    simp only [Turn.pauses, decide_eq_false_iff_not] at ht
    simp only [step?] at hs
    split at hs <;> cases hs
    exact ⟨ht, fun hg => hg.resolve_right (by simp)⟩
  | proceed =>
    obtain ⟨o, rest, -, heq, rfl⟩ | ⟨-, rfl⟩ := proceed?_cases hs
    · rw [heq] at ho
      refine ⟨fun hm => ho (List.mem_cons_of_mem _ hm), fun hg => ?_⟩
      cases o with
      | pause => exact absurd (List.mem_cons_self ..) ho
      | resume => rfl
      | _ => exact hg.resolve_right (by simp)
    · have hh : Heeds (fun a => ∃ r, a = .resize r) s.pool (s.resize.step s.pool).2 :=
        heeds_step s.resize ⟨_, rfl⟩ s.pool
      exact ⟨ho, fun hg => (hh.closed (by simp) (by simp)).trans (hg.resolve_right (by simp))⟩
  | deed d =>
    obtain ⟨hf, -, heq⟩ := step?_deed hs
    refine ⟨heq ▸ ho, fun hg => ?_⟩
    by_cases hd : d = .act .resume
    · subst hd
      exact (Floor.gate_of_resume hf)
    · have hopen := hg.resolve_right fun he => hd (Turn.deed.inj he)
      refine ((Floor.heeds_step? hf).closed ?_ hd).trans hopen
      rintro rfl
      cases ht

theorem opened_run? (ho : .pause ∉ s.orders) (ht : ∀ t ∈ ts, t.pauses = false)
    (hg : s.pool.gate.closed = false ∨ .deed (.act .resume) ∈ ts) (hs : s.run? ts = some s') :
    s'.pool.gate.closed = false := by
  induction ts generalizing s with
  | nil =>
    cases hs
    exact hg.resolve_right List.not_mem_nil
  | cons t ts ih =>
    obtain ⟨s₁, h₁, hrest⟩ := Option.bind_eq_some_iff.mp hs
    obtain ⟨ho₁, hg₁⟩ := opened_step? ho (ht t (List.mem_cons_self ..)) h₁
    refine ih ho₁ (fun u hu => ht u (List.mem_cons_of_mem _ hu)) ?_ hrest
    rcases hg with hg | hm
    · exact Or.inl (hg₁ (Or.inl hg))
    · rcases List.mem_cons.mp hm with he | hm
      · exact Or.inl (hg₁ (Or.inr he.symm))
      · exact Or.inr hm

theorem accepting_run? (ha : s.pool.accepting = false ∨ .deed (.act .disconnect) ∈ ts)
    (hs : s.run? ts = some s') : s'.pool.accepting = false := by
  induction ts generalizing s with
  | nil =>
    cases hs
    exact ha.resolve_right List.not_mem_nil
  | cons t ts ih =>
    obtain ⟨s₁, h₁, hrest⟩ := Option.bind_eq_some_iff.mp hs
    refine ih ?_ hrest
    rcases ha with ha | hm
    · obtain ⟨ds, hds⟩ := floor_step? h₁
      exact Or.inl (Floor.accepting_run? ha hds)
    · rcases List.mem_cons.mp hm with rfl | hm
      · exact Or.inl (Floor.accepting_of_disconnect (step?_deed h₁).1)
      · exact Or.inr hm

/-- What can be said of a pool in which nobody discards, whatever changes of the number of its workers are
under way. -/
structure Staffing (s : Shift) : Prop where
  level : s.pool.accepting = true → (s.pool.hands.length : Int) - s.pool.tokens = s.pool.target
  manned : 1 ≤ s.pool.target
  -- A change of their number comes to what was asked for, whatever others do meanwhile.
  resized : ∀ (n : Nat) (us : List Turn) (s' : Shift), 0 < n → s.isIdle = true → s.pool.shut = false →
    (∀ t ∈ us, Leaves t) → s.run? (.give [.workers n] :: .proceed :: us) = some s' → s'.isIdle = true →
    s'.pool.target = n
  returns : ∀ n : Nat, s.isIdle = true →
    ∃ k s', s.run? (.give [.workers n] :: List.replicate k .proceed) = some s' ∧ s'.isIdle = true
  executed : s.pool.hands = [] → ∀ i, s.pool.isAccepted i → s.pool.Executed i
  -- The last worker leaves in the end, once the pool shuts down and nobody pauses it again.
  drains : ∀ (us : List Turn) (s' : Shift), .pause ∉ s.orders →
    (∀ t ∈ us, t.spares = true ∧ t.pauses = false) → shuttingDown.Sublist us → s.run? us = some s' →
    s'.floor.Drains

/-- Tokens never send all workers away: the last one leaves when whatever was accepted has been executed. -/
theorem staffing_of_run {c : Settings} {p : Pool} (hp : Pool.create c = .ok p)
    (ht : ∀ t ∈ ts, t.spares = true) (hs : (opened p).run? ts = some s) : s.Staffing := by
  have h : s.Staffed := (staffed_opened hp).run? ht hs
  refine ⟨fun ha => h.level.resolve_right fun he => ?_, h.manned,
    fun n us s' hn hidle hopen hu hrun => target_of_workers hn hidle hopen hu hrun, fun n hidle => ?_,
    h.executed, fun us s' ho hu hshut hrun => ?_⟩
  · have hno := (isExhausted_iff.mp he.pool).2
    have hyes : s.floor.pool.accepting = true := ha
    rw [hno] at hyes
    cases hyes
  · obtain ⟨hr, -⟩ := isIdle_iff.mp hidle
    obtain ⟨k, hk⟩ := run?_orders [.workers n] s.floor
    have hgiven : s.run? (.give [.workers n] :: List.replicate k .proceed) =
        (⟨s.floor, .done, [.workers n]⟩ : Shift).run? (List.replicate k .proceed) := by
      simp only [run?_cons, step?, hidle, if_true, Option.bind_some, hr]
    exact ⟨k, _, hgiven.trans hk, rfl⟩
  · have hsub := hshut.subset
    exact (h.run? (fun t hm => (hu t hm).1) hrun).drains
      (opened_run? ho (fun t hm => (hu t hm).2) (Or.inr (hsub (by simp [shuttingDown]))) hrun)
      (accepting_run? (Or.inr (hsub (by simp [shuttingDown]))) hrun)

/-- A worker more, and a worker less before there is time for that: a unit waits in the backlog, and the caller of
another one waits for room, when the pool shuts down. One worker retires, the other executes both. -/
def growAndShrink (a b : WorkUnit) (o : Outcome) : List Turn :=
  .give [.workers 2] :: List.replicate 5 .proceed ++
    ([.ask a, .connect a, .announce a, .act (.proceed 0), .ask b, .connect b, .announce b].map .deed) ++
    .give [.workers 1] :: List.replicate 4 .proceed ++ shuttingDown ++
    ([.act (.move ⟨0, .arriving⟩ .pass), .act (.move ⟨0, .looking⟩ .look), .act (.move ⟨0, .choosing⟩ .claim),
      .act (.proceed 1), .act (.move ⟨1, .arriving⟩ .pass), .act (.move ⟨1, .looking⟩ .look),
      .act (.move ⟨1, .choosing⟩ .retire), .act (.move ⟨0, .holding ⟨0, a⟩⟩ .pass),
      .act (.move ⟨0, .starting ⟨0, a⟩⟩ .start), .act (.move ⟨0, .running ⟨0, a⟩⟩ (.finish o)),
      .act (.move ⟨0, .arriving⟩ .pass), .act (.move ⟨0, .looking⟩ .look), .act (.move ⟨0, .choosing⟩ .claim),
      .act (.move ⟨0, .holding ⟨1, b⟩⟩ .pass), .act (.move ⟨0, .starting ⟨1, b⟩⟩ .start),
      .act (.move ⟨0, .running ⟨1, b⟩⟩ (.finish o)), .act (.move ⟨0, .arriving⟩ .pass),
      .act (.move ⟨0, .looking⟩ .look), .act (.move ⟨0, .choosing⟩ .leave)].map .deed)

theorem staffing_of_growAndShrink :
    ∃ p s, Pool.create ⟨1, 1, Settings.minStackSize, 5⟩ = .ok p ∧
      (∀ t ∈ growAndShrink (.single 0 "a" .plain) (.single 1 "b" .plain) (.success (.ofSeconds 1)),
        t.spares = true) ∧
      (opened p).run? (growAndShrink (.single 0 "a" .plain) (.single 1 "b" .plain)
        (.success (.ofSeconds 1))) = some s ∧
      s.pool.hands = [] ∧ s.pool.target = 1 ∧ s.pool.Executed 0 ∧ s.pool.Executed 1 := by
  obtain ⟨p, hp⟩ : ∃ p, Pool.create ⟨1, 1, Settings.minStackSize, 5⟩ = .ok p := ⟨_, rfl⟩
  have hspares : ∀ t ∈ growAndShrink (.single 0 "a" .plain) (.single 1 "b" .plain)
      (.success (.ofSeconds 1)), t.spares = true := by decide
  obtain ⟨s, hs, hh, ht, h0, h1⟩ : ∃ s, (opened p).run? (growAndShrink (.single 0 "a" .plain)
      (.single 1 "b" .plain) (.success (.ofSeconds 1))) = some s ∧ s.pool.hands = [] ∧ s.pool.target = 1 ∧
      s.pool.isAccepted 0 = true ∧ s.pool.isAccepted 1 = true := by
    cases hp
    exact ⟨_, rfl, rfl, rfl, rfl, rfl⟩
  have hstaffing := staffing_of_run hp hspares hs
  exact ⟨p, s, hp, hspares, hs, hh, ht, hstaffing.executed hh 0 h0, hstaffing.executed hh 1 h1⟩

end Shift
end BatchJob.Worker
