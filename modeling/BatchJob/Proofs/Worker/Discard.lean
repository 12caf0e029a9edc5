import BatchJob.Proofs.Worker.Floor
import BatchJob.Proofs.Worker.Frame

/-! Shutting a pool down without running its backlog. The backlog is emptied until one look finds nothing
in it, and then the workers are sent home. A caller who waited for room may find it after that look: then
the submission succeeds, and nobody is left to execute the unit or to drop it. -/
namespace BatchJob.Worker
open Work

namespace Pool

/-- Every unit that was accepted was executed or dropped, and none is counted as waiting. -/
structure Settled (p : Pool) : Prop where
  queued_eq : p.counters.queued = 0
  fate : ∀ (i : Nat) (u : WorkUnit) (r : Reply), p.submissions[i]? = some ⟨u, r⟩ → r ≠ .refused →
    r = .dropped ∨ ∃ o, r = .answered o ∨ r = .fetched o
  discarded_eq : p.counters.discarded = p.submissions.countP (·.reply = .dropped)

end Pool

namespace Floor
open Pool

variable {f g : Floor}

/-- The look into the backlog that ends the discarding: it finds nothing there. -/
def AtLastLook (f : Floor) : Prop := f.pool.discarding = true ∧ f.pool.backlog = []

/-- All workers went home and all callers know what became of their submissions. -/
def AtRest (f : Floor) : Prop :=
  f.pool.hands = [] ∧ f.pool.blocked = [] ∧ f.asked = [] ∧ f.connected = []

/-- A task of a caller who was submitting when the floor was `f`. -/
def Submitting (f : Floor) (t : Task) : Prop :=
  t ∈ f.pool.blocked ∨
    (f.pool.submissions.length ≤ t.serial ∧ (t.unit ∈ f.asked ∨ t.unit ∈ f.connected))

/-- After the last look there is nobody but those who were submitting then. -/
structure After (f g : Floor) : Prop where
  discarding : g.pool.discarding = true
  queue : ∀ t ∈ g.pool.queue, f.Submitting t
  callers : ∀ u, u ∈ g.asked ∨ u ∈ g.connected → u ∈ f.asked ∨ u ∈ f.connected
  submissions : f.pool.submissions.length ≤ g.pool.submissions.length

theorem AtLastLook.after (h : f.AtLastLook) : f.After f where
  discarding := h.1
  queue t ht := by
    simp only [Pool.queue, h.2, List.append_nil] at ht
    exact Or.inl ht
  callers _ := id
  submissions := le_rfl

theorem After.perform? {g' : Floor} (h : f.After g) {a : Act} (ha : ∀ u, a ≠ .announce u)
    (hg : g.perform? a = some g') : f.After g' := by
  obtain ⟨q, hq, rfl⟩ := Option.map_eq_some_iff.mp hg
  have hk := keeps_perform? ha hq
  exact ⟨hk.discarding h.discarding, fun t ht => h.queue t (hk.queue t ht), h.callers,
    h.submissions.trans hk.submissions⟩

theorem After.announce {g' : Floor} (h : f.After g) {u : WorkUnit} (hu : u ∈ g.connected)
    (hg : ({ g with connected := g.connected.erase u } : Floor).perform? (.announce u) = some g') :
    f.After g' := by
  cases hg
  refine ⟨h.discarding, fun t ht => ?_, fun v hv => ?_, ?_⟩
  · simp only [Pool.queue, Pool.announce, count, List.mem_append, List.mem_singleton] at ht
    rcases ht with (hb | rfl) | hl
    · exact h.queue t (List.mem_append_left _ hb)
    · exact Or.inr ⟨h.submissions, h.callers u (Or.inr hu)⟩
    · exact h.queue t (List.mem_append_right _ hl)
  · exact h.callers v (hv.imp_right List.mem_of_mem_erase)
  · have := h.submissions
    simp only [Pool.announce, List.length_append, List.length_singleton]
    omega

theorem After.step? {g' : Floor} (h : f.After g) {d : Deed} (hg : g.step? d = some g') :
    f.After g' := by
  cases d with
  | ask u =>
    simp only [Floor.step?, h.discarding, or_true, if_true] at hg
    cases hg
  | connect u =>
    simp only [Floor.step?] at hg
    split at hg <;> cases hg
    rename_i hu
    refine ⟨h.discarding, h.queue, fun v hv => ?_, h.submissions⟩
    rcases hv with hv | hv
    · exact h.callers v (Or.inl (List.mem_of_mem_erase hv))
    · rcases List.mem_cons.mp hv with rfl | hv
      · exact h.callers v (Or.inl hu.1)
      · exact h.callers v (Or.inr hv)
  | turnBack u =>
    simp only [Floor.step?] at hg
    split at hg <;> cases hg
    exact ⟨h.discarding, h.queue, fun v hv => h.callers v (hv.imp_left List.mem_of_mem_erase),
      h.submissions⟩
  | announce u =>
    simp only [Floor.step?] at hg
    split at hg
    · rename_i hu
      exact h.announce hu hg
    · cases hg
  | act a =>
    simp only [Floor.step?] at hg
    split at hg
    · rename_i ha
      exact h.perform? (fun u hu => by subst hu; cases ha) hg
    · cases hg

theorem After.run? {g' : Floor} (h : f.After g) {ds : List Deed} (hg : g.run? ds = some g') :
    f.After g' := by
  induction ds generalizing g with
  | nil =>
    cases hg
    exact h
  | cons d ds ih =>
    obtain ⟨g₁, h₁, hrest⟩ := Option.bind_eq_some_iff.mp hg
    exact ih (h.step? h₁) hrest

theorem backlog_run? (h : f.pool.backlog = []) {ds : List Deed}
    (hlate : ∀ serial, .act (.proceed serial) ∉ ds) (hg : f.run? ds = some g) :
    g.pool.backlog = [] := by
  have hperform : ∀ {x y : Floor} {a : Act}, (∀ u, a ≠ .announce u) → (∀ serial, a ≠ .proceed serial) →
      x.perform? a = some y → x.pool.backlog = [] → y.pool.backlog = [] := by
    intro x y a hu ha hy he
    obtain ⟨q, hq, rfl⟩ := Option.map_eq_some_iff.mp hy
    exact (keeps_perform? hu hq).backlog ha he
  induction ds generalizing f with
  | nil =>
    cases hg
    exact h
  | cons d ds ih =>
    obtain ⟨f', hd, hrest⟩ := Option.bind_eq_some_iff.mp hg
    refine ih ?_ (fun serial hm => hlate serial (List.mem_cons_of_mem _ hm)) hrest
    cases d with
    | act a =>
      simp only [Floor.step?] at hd
      split at hd
      · rename_i ha
        exact hperform (fun u hu => by subst hu; cases ha)
          (fun serial hs => hlate serial (by simp [hs])) hd h
      · cases hd
    | announce u =>
      simp only [Floor.step?] at hd
      split at hd <;> cases hd
      exact h
    | _ =>
      simp only [Floor.step?] at hd
      split at hd <;> cases hd
      exact h

theorem settled_iff (hs : f.pool.Sound f.journal) (hr : f.AtRest) :
    f.pool.Settled ↔ f.pool.backlog = [] := by
  obtain ⟨hh, hb, -, -⟩ := hr
  have hacc := hs.accounted
  have hq : f.pool.counters.queued = f.pool.backlog.length := by
    rw [hacc.queued_eq]
    simp [claimed, hh, hb]
  constructor
  · intro h
    rw [h.queued_eq] at hq
    exact List.length_eq_zero_iff.mp hq.symm
  · intro he
    refine ⟨by simp [hq, he], fun i u r hi hne => ?_, hs.run.balanced.discarded_eq⟩
    cases r with
    | pending =>
      have hm : (⟨i, u⟩ : Task) ∈ f.pool.ledger.waiting + f.pool.ledger.running :=
        (hs.run.balanced.tasks.mem_iff ⟨i, u⟩).mpr hi
      simp [ledger, claimed, atWork, hh, hb, he] at hm
    | answered o => exact Or.inr ⟨o, Or.inl rfl⟩
    | fetched o => exact Or.inr ⟨o, Or.inr rfl⟩
    | dropped => exact Or.inl rfl
    | refused => exact absurd rfl hne

/-- A unit can be left behind, but only in the backlog, and only by a caller who was already submitting
when the last look found the backlog empty and whose task came there after it. -/
theorem settled_of_lastLook {s : Settings} {p : Pool} (hp : Pool.create s = .ok p)
    {ds es : List Deed} (hf : (opened p).run? ds = some f) (hlook : f.AtLastLook)
    (hg : f.run? es = some g) (hrest : g.AtRest) :
    (g.pool.Settled ↔ g.pool.backlog = []) ∧
      (∀ t ∈ g.pool.backlog, f.Submitting t) ∧
      ((∀ serial, .act (.proceed serial) ∉ es) → g.pool.Settled) := by
  have hs : g.pool.Sound g.journal := sound_run? (sound_run? (sound_create hp) hf) hg
  have hafter : f.After g := hlook.after.run? hg
  refine ⟨settled_iff hs hrest, fun t ht => hafter.queue t (List.mem_append_right _ ht), ?_⟩
  intro hlate
  exact (settled_iff hs hrest).mpr (backlog_run? hlook.2 hlate hg)

/-- The worker of a paused pool holds one unit, another fills the backlog and the caller of a third waits
for room. The pool discards, drops what is in the backlog and finds nothing more. -/
def untilLastLook (a b c : WorkUnit) : List Deed :=
  [.act (.move ⟨0, .arriving⟩ .pass), .act (.move ⟨0, .looking⟩ .look), .act .pause,
    .ask a, .connect a, .announce a, .act (.proceed 0), .act (.move ⟨0, .choosing⟩ .claim),
    .ask b, .connect b, .announce b, .act (.proceed 1), .ask c, .connect c, .announce c,
    .act .discard, .act .drop]

/-- The pool shuts down; its one worker drops what it holds and goes home. -/
def shutDown (a : WorkUnit) : List Deed :=
  [.act .shut, .act .resume, .act .disconnect, .act (.move ⟨0, .holding ⟨0, a⟩⟩ .pass),
    .act (.move ⟨0, .starting ⟨0, a⟩⟩ .start)]

/-- A caller who gives up leaves nothing behind. -/
theorem settled_of_giveUp :
    ∃ p f g, Pool.create ⟨1, 1, Settings.minStackSize, 5⟩ = .ok p ∧
      (opened p).run? (untilLastLook (.single 0 "a" .plain) (.single 1 "b" .plain)
        (.single 2 "c" .plain)) = some f ∧
      f.AtLastLook ∧
      f.run? (shutDown (.single 0 "a" .plain) ++ [.act (.giveUp 2)]) = some g ∧ g.AtRest ∧
      g.pool.reply 2 = .refused ∧ g.pool.Settled := by
  obtain ⟨p, hp⟩ : ∃ p, Pool.create ⟨1, 1, Settings.minStackSize, 5⟩ = .ok p := ⟨_, rfl⟩
  obtain ⟨f, hf, hlook, g, hg, hrest, hr⟩ :
      ∃ f, (opened p).run? (untilLastLook (.single 0 "a" .plain) (.single 1 "b" .plain)
          (.single 2 "c" .plain)) = some f ∧ f.AtLastLook ∧
        ∃ g, f.run? (shutDown (.single 0 "a" .plain) ++ [.act (.giveUp 2)]) = some g ∧ g.AtRest ∧
        g.pool.reply 2 = .refused := by
    cases hp
    exact ⟨_, rfl, ⟨rfl, rfl⟩, _, rfl, ⟨rfl, rfl, rfl, rfl⟩, rfl⟩
  refine ⟨p, f, g, hp, hf, hlook, hg, hrest, hr, ?_⟩
  refine (settled_of_lastLook hp hf hlook hg hrest).2.2 fun serial hm => ?_
  simp [shutDown] at hm

/-- A caller who finds room after the last look has a unit accepted that nobody will ever touch. -/
theorem not_settled_of_late_admission :
    ∃ p f g, Pool.create ⟨1, 1, Settings.minStackSize, 5⟩ = .ok p ∧
      (opened p).run? (untilLastLook (.single 0 "a" .plain) (.single 1 "b" .plain)
        (.single 2 "c" .plain)) = some f ∧
      f.AtLastLook ∧
      f.run? (shutDown (.single 0 "a" .plain) ++ [.act (.proceed 2)]) = some g ∧ g.AtRest ∧
      g.pool.isAccepted 2 ∧ g.pool.reply 2 = .pending ∧ g.pool.counters = ⟨3, 1, 0, 0, 0, 2⟩ ∧
      ¬ g.pool.Settled := by
  obtain ⟨p, hp⟩ : ∃ p, Pool.create ⟨1, 1, Settings.minStackSize, 5⟩ = .ok p := ⟨_, rfl⟩
  cases hp
  refine ⟨_, _, _, rfl, rfl, ⟨rfl, rfl⟩, rfl, ⟨rfl, rfl, rfl, rfl⟩, rfl, rfl, rfl, fun h => ?_⟩
  exact absurd h.queued_eq (by decide)

end Floor
end BatchJob.Worker
