import BatchJob.Proofs.Worker.Idle
import BatchJob.Proofs.Worker.Shift

/-! When units start. A worker takes a task from the backlog, waits with it at the gate, and once it has passed
starts the unit unless the pool discards. So behind a closed gate nothing starts but what had passed before, and
after a discard nothing at all starts. What is at work is not disturbed by either. -/
namespace BatchJob.Worker
open Work

/-- A task whose worker has passed the gate with it and not yet started it. -/
def Station.passed? : Station → Option Task
  | starting t => some t
  | _ => none

def Station.held? : Station → Option Task
  | holding t => some t
  | _ => none

namespace Pool

def passed (p : Pool) : List Task := p.hands.filterMap (·.station.passed?)

def held (p : Pool) : List Task := p.hands.filterMap (·.station.held?)

variable {p q : Pool} {h : Hand} {a : Act} {journal : List Entry}

theorem claimed_eq (p : Pool) : (p.claimed : Multiset Task) = p.held + p.passed := by
  simp only [claimed, held, passed]
  induction p.hands with
  | nil => rfl
  | cons h hands ih =>
    obtain ⟨i, s⟩ := h
    cases s with
    | holding t => exact (congrArg (Multiset.cons t) ih).trans (Multiset.cons_add ..).symm
    | starting t => exact (congrArg (Multiset.cons t) ih).trans (Multiset.add_cons ..).symm
    | _ => exact ih

theorem Sound.not_started (hs : p.Sound journal) {t : Task} (ht : t ∈ p.queue ++ p.held) :
    t ∉ starts journal ∧ t ∉ p.passed := by
  have hb := hs.run.balanced
  have hwaiting : p.ledger.waiting = ((p.queue ++ p.held : List Task) : Multiset Task) + p.passed := by
    simp only [ledger, queue, claimed_eq, ← Multiset.coe_add, Multiset.add_assoc]
  have hnodup := hb.tasks.nodup
  have hmem : t ∈ p.ledger.waiting := by
    rw [hwaiting]
    exact Multiset.mem_add.mpr (Or.inl (Multiset.mem_coe.mpr ht))
  constructor
  · intro hstarted
    have hpending := hb.pending_of_waiting hmem
    rcases hs.run.mem_starts hstarted with ⟨hrunning, -⟩ | ⟨o, -, hdone | hdone⟩
    · exact Multiset.disjoint_left.mp (Multiset.nodup_add.mp hnodup).2.2 hmem hrunning
    · rw [hpending] at hdone
      simp at hdone
    · rw [hpending] at hdone
      simp at hdone
  · intro hpassed
    have hapart := (Multiset.nodup_add.mp hnodup).1
    rw [hwaiting] at hapart
    exact Multiset.disjoint_left.mp (Multiset.nodup_add.mp hapart).2.2 (Multiset.mem_coe.mpr ht)
      (Multiset.mem_coe.mpr hpassed)

theorem passed_of_hands (hh : q.hands = p.hands) : q.passed = p.passed := by rw [passed, passed, hh]

theorem passed_step (r : Resize) (p : Pool) : (r.step p).2.passed = p.passed := by
  cases r with
  | asked count =>
    simp only [Resize.step]
    split <;> rfl
  | retiring n => cases n <;> rfl
  | reclaiming n =>
    cases n with
    | zero => rfl
    | succ n =>
      simp only [Resize.step]
      split <;> rfl
  | spawning n =>
    cases n with
    | zero => rfl
    | succ n => simp [Resize.step, passed, spawn, Station.passed?]
  | done => rfl

theorem passed_move? (hc : p.Crewed) (hh : h ∈ p.hands) {m : Move}
    (hq : p.move? h.id h.station m = some q) :
    ∃ r : Multiset Task, (p.passed : Multiset Task) = (h.station.passed?.toList : Multiset Task) + r ∧
      ((q.passed : Multiset Task) = r ∨
        (p.gate.closed = false ∧ ∃ t, (q.passed : Multiset Task) = t ::ₘ r)) := by
  obtain ⟨r, hp, hm, hx⟩ := hc.part hh Station.passed?
  obtain ⟨i, s⟩ := h
  refine ⟨r, hp, ?_⟩
  have hstay : ∀ s', q.hands = (p.moveTo i s').hands → s'.passed? = none → (q.passed : Multiset Task) = r := by
    intro s' hhands hnone
    have hall := hm s'
    rw [hnone, Option.toList_none, Multiset.coe_nil, Multiset.zero_add] at hall
    rw [passed, hhands]
    exact hall
  have hgone : q.hands = (p.exit i).hands → (q.passed : Multiset Task) = r := by
    intro hhands
    rw [passed, hhands]
    exact hx
  have hmoved : p.Moved i s m q := moved_of_move? hq
  cases hmoved with
  | pass => exact Or.inl (hstay .looking rfl rfl)
  | look => exact Or.inl (hstay .choosing rfl rfl)
  | claim => exact Or.inl (hstay (.holding _) rfl rfl)
  | quit => exact Or.inl (hgone rfl)
  | retire => exact Or.inl (hgone rfl)
  | leave => exact Or.inl (hgone rfl)
  | @passWith t hg =>
    refine Or.inr ⟨hg, t, ?_⟩
    rw [← Multiset.singleton_add]
    exact hm (.starting t)
  | @start t =>
    left
    by_cases hd : p.discarding = true
    · refine hgone ?_
      simp only [start, hd, if_true]
      rfl
    · refine hstay (.running t) ?_ rfl
      simp only [start, hd]
      rfl
  | @finish t o => exact Or.inl (hstay .arriving rfl rfl)

theorem passed_perform? (hc : p.Crewed) (hg : p.gate.closed = true) (hq : p.perform? a = some q) :
    q.passed ⊆ p.passed := by
  cases a with
  | move h m =>
    simp only [perform?] at hq
    split at hq
    · rename_i hh
      obtain ⟨r, hp, hr | ⟨hopen, -⟩⟩ := passed_move? hc hh hq
      · intro t ht
        rw [← Multiset.mem_coe, hr] at ht
        rw [← Multiset.mem_coe, hp]
        exact Multiset.mem_add.mpr (Or.inr ht)
      · rw [hg] at hopen
        cases hopen
    · cases hq
  | resize r =>
    cases hq
    exact fun t ht => passed_step r p ▸ ht
  | _ =>
    obtain ⟨hhands, -⟩ := hands_perform? (p := p) (q := q) (by simp) (by simp) hq
    exact fun t ht => passed_of_hands hhands ▸ ht

/-- Only those start who have passed, and they do not if the pool discards. -/
theorem starts_note? (hq : p.perform? a = some q) :
    starts (p.note? a).toList ⊆ p.passed ∧ (p.discarding = true → starts (p.note? a).toList = []) := by
  have hnone : starts (p.note? a).toList = [] →
      starts (p.note? a).toList ⊆ p.passed ∧ (p.discarding = true → starts (p.note? a).toList = []) :=
    fun he => ⟨he ▸ List.nil_subset _, fun _ => he⟩
  cases a with
  | move h m =>
    obtain ⟨i, s⟩ := h
    simp only [perform?] at hq
    split at hq
    · rename_i hh
      cases s with
      | starting t =>
        cases m with
        | start =>
          have hm : t ∈ p.passed := List.mem_filterMap.mpr ⟨_, hh, rfl⟩
          by_cases hd : p.discarding = true
          · refine hnone ?_
            simp only [note?, hd, if_true]
            rfl
          · refine ⟨?_, fun hyes => absurd hyes hd⟩
            simpa [note?, hd, starts] using hm
        | _ => exact hnone rfl
      | running t => cases m <;> exact hnone rfl
      | _ => exact hnone rfl
    · cases hq
  | giveUp serial =>
    refine hnone ?_
    simp only [note?]
    cases p.blocked.find? (·.serial = serial) <;> rfl
  | drop =>
    refine hnone ?_
    simp only [note?]
    cases p.backlog.head? <;> rfl
  | fetch serial =>
    refine hnone ?_
    simp only [note?]
    split <;> rfl
  | _ => exact hnone rfl

theorem passed_stays (hc : p.Crewed) (hd : p.discarding = false) (hq : p.perform? a = some q) {t : Task}
    (ht : t ∈ p.passed) : t ∈ q.passed ∨ t ∈ starts (p.note? a).toList := by
  cases a with
  | move h m =>
    simp only [perform?] at hq
    split at hq
    · rename_i hh
      obtain ⟨r, hp, hr⟩ := passed_move? hc hh hq
      rw [← Multiset.mem_coe, hp, Multiset.mem_add] at ht
      rcases ht with ht | ht
      · obtain ⟨i, s⟩ := h
        cases s with
        | starting t' =>
          obtain rfl : t = t' := by simpa [Station.passed?] using ht
          have hmoved : p.Moved i (.starting t) m q := moved_of_move? hq
          cases hmoved
          simp [note?, hd, starts]
        | _ => simp [Station.passed?] at ht
      · left
        rw [← Multiset.mem_coe]
        rcases hr with hr | ⟨-, t', hr⟩
        · rw [hr]
          exact ht
        · rw [hr]
          exact Multiset.mem_cons_of_mem ht
    · cases hq
  | resize r =>
    cases hq
    exact Or.inl (passed_step r p ▸ ht)
  | _ =>
    obtain ⟨hhands, -⟩ := hands_perform? (p := p) (q := q) (by simp) (by simp) hq
    exact Or.inl (passed_of_hands hhands ▸ ht)

end Pool

namespace Floor
open Pool

variable {f g : Floor} {d : Deed} {ds : List Deed}

theorem closed_step? (hg : f.pool.gate.closed = true) (hd : d ≠ .act .resume) (h : f.step? d = some g) :
    g.pool.gate.closed = true := by
  by_cases hp : d = .act .pause
  · subst hp
    rw [← Option.some.inj (perform?_of_step? h)]
    rfl
  · exact ((heeds_step? h).closed hp hd).trans hg

theorem discarding_step? (hg : f.pool.discarding = true) (h : f.step? d = some g) :
    g.pool.discarding = true := by
  by_cases hd : d = .act .discard
  · subst hd
    rw [← Option.some.inj (perform?_of_step? h)]
    rfl
  · exact ((heeds_step? h).discarding hd).trans hg

theorem starts_step? (h : f.step? d = some g) :
    starts g.journal ⊆ starts f.journal ++ f.pool.passed ∧
      (f.pool.discarding = true → starts g.journal = starts f.journal) := by
  obtain ⟨-, hj⟩ | ⟨a, -, hq, hj⟩ := step?_cases h
  · rw [hj]
    exact ⟨List.subset_append_left _ _, fun _ => rfl⟩
  · obtain ⟨hsub, hnone⟩ := starts_note? hq
    rw [hj, starts_append]
    refine ⟨List.append_subset.mpr ⟨List.subset_append_left _ _, ?_⟩, fun hd => ?_⟩
    · exact List.Subset.trans hsub (List.subset_append_right _ _)
    · rw [hnone hd, List.append_nil]

theorem passed_step? (hc : f.pool.Crewed) (hg : f.pool.gate.closed = true) (h : f.step? d = some g) :
    g.pool.passed ⊆ f.pool.passed := by
  obtain ⟨hp, -⟩ | ⟨a, -, hq, -⟩ := step?_cases h
  · exact hp ▸ List.Subset.refl _
  · exact passed_perform? hc hg hq

theorem passed_stays_step? (hc : f.pool.Crewed) (hd : f.pool.discarding = false) (h : f.step? d = some g)
    {t : Task} (ht : t ∈ f.pool.passed) : t ∈ g.pool.passed ∨ t ∈ starts g.journal := by
  obtain ⟨hp, -⟩ | ⟨a, -, hq, hj⟩ := step?_cases h
  · exact Or.inl (hp ▸ ht)
  · rw [hj, starts_append]
    exact (passed_stays hc hd hq ht).imp_right fun hm => List.mem_append_right _ hm

theorem journal_step? (h : f.step? d = some g) : f.journal <+: g.journal := by
  obtain ⟨-, hj⟩ | ⟨a, -, -, hj⟩ := step?_cases h
  · exact hj ▸ List.prefix_refl _
  · exact hj ▸ List.prefix_append _ _

theorem journal_run? (h : f.run? ds = some g) : f.journal <+: g.journal :=
  run?_induction (motive := fun x => f.journal <+: x.journal) (fun _ _ _ _ hx hy => hx.trans (journal_step? hy)) h
    (fun _ _ => trivial) (List.prefix_refl _)

/-- A floor behind a closed gate, where nothing but what is `allowed` has started or can start. -/
structure Barred (allowed : List Task) (f : Floor) : Prop where
  sound : f.pool.Sound f.journal
  closed : f.pool.gate.closed = true
  passed : f.pool.passed ⊆ allowed
  started : starts f.journal ⊆ allowed

theorem Barred.step? {allowed : List Task} (h : f.Barred allowed) (hd : d ≠ .act .resume) (hg : f.step? d = some g) :
    g.Barred allowed where
  sound := sound_step? h.sound hg
  closed := closed_step? h.closed hd hg
  passed := List.Subset.trans (passed_step? h.sound.crewed h.closed hg) h.passed
  started := List.Subset.trans (starts_step? hg).1 (List.append_subset.mpr ⟨h.started, h.passed⟩)

theorem still_closed (hs : f.pool.Sound f.journal) (hg : f.pool.gate.closed = true)
    (hd : .act .resume ∉ ds) (h : f.run? ds = some g) : g.Barred (starts f.journal ++ f.pool.passed) :=
  run?_induction (fun _ _ _ (hd : _ ≠ Deed.act .resume) hx hy => hx.step? hd hy) h (fun _ hm he => hd (he ▸ hm))
    ⟨hs, hg, List.subset_append_right _ _, List.subset_append_left _ _⟩

theorem still_discarding (hd : f.pool.discarding = true) (h : f.run? ds = some g) :
    g.pool.discarding = true ∧ starts g.journal = starts f.journal :=
  run?_induction (motive := fun x => x.pool.discarding = true ∧ starts x.journal = starts f.journal)
    (fun _ _ _ _ hx hy => ⟨discarding_step? hx.1 hy, ((starts_step? hy).2 hx.1).trans hx.2⟩) h
    (fun _ _ => trivial) ⟨hd, rfl⟩

/-- Whoever has passed starts in the end, unless somebody discards. -/
theorem passed_goesOn (hs : f.pool.Sound f.journal) (h : f.run? ds = some g) (hd : g.pool.discarding = false)
    {t : Task} (ht : t ∈ f.pool.passed) : t ∈ g.pool.passed ∨ t ∈ starts g.journal := by
  have hgoesOn : g.pool.Sound g.journal ∧
      (g.pool.discarding = false → t ∈ g.pool.passed ∨ t ∈ starts g.journal) := by
    refine run?_induction (motive := fun x => x.pool.Sound x.journal ∧
      (x.pool.discarding = false → t ∈ x.pool.passed ∨ t ∈ starts x.journal))
      (fun x d y _ hx hy => ⟨sound_step? hx.1 hy, fun hkeeps => ?_⟩) h (fun _ _ => trivial)
      ⟨hs, fun _ => Or.inl ht⟩
    have hkept : x.pool.discarding = false := by
      by_contra hyes
      rw [discarding_step? (by simpa using hyes) hy] at hkeeps
      cases hkeeps
    rcases hx.2 hkept with hm | hm
    · exact passed_stays_step? hx.1.crewed hkept hy hm
    · exact Or.inr (((journal_step? hy).filterMap _).subset hm)
  exact hgoesOn.2 hd

theorem atWork_goesOn (hs : f.pool.Sound f.journal) (h : f.run? ds = some g) {t : Task}
    (ht : t ∈ f.pool.atWork) : t ∈ g.pool.atWork ∨ g.pool.Executed t.serial := by
  have hstarted : t ∈ starts f.journal := by
    rw [← Multiset.mem_coe, hs.run.starts_eq]
    exact Multiset.mem_add.mpr (Or.inl (Multiset.mem_coe.mpr ht))
  have hstill : t ∈ starts g.journal := ((journal_run? h).filterMap _).subset hstarted
  rcases (sound_run? hs h).accounted.executed t hstill with ⟨hm, -⟩ | ⟨o, hc, hr⟩
  · exact Or.inl hm
  · exact Or.inr ⟨⟨t, o⟩, hc, hr⟩

theorem exists_start (hd : f.pool.discarding = false) {t : Task} (ht : t ∈ f.pool.passed) :
    ∃ h g, f.step? (.act (.move h .start)) = some g ∧ g.journal = f.journal ++ [.started t] := by
  obtain ⟨⟨i, s⟩, hh, hs⟩ := List.mem_filterMap.mp ht
  cases s with
  | starting t' =>
    obtain rfl : t' = t := Option.some.inj hs
    refine ⟨⟨i, .starting t'⟩, { f with
      pool := f.pool.start i t'
      journal := f.journal ++ [.started t'] }, ?_, rfl⟩
    simp [Floor.step?, allows, Floor.perform?, Pool.perform?, hh, Pool.move?, note?, hd]
  | _ => cases hs

theorem exists_finish (hs : f.pool.Sound f.journal) {t : Task} (ht : t ∈ f.pool.atWork) (o : Outcome) :
    ∃ h g, f.step? (.act (.move h (.finish o))) = some g ∧
      g.pool.completions = f.pool.completions ++ [⟨t, o⟩] ∧
      g.pool.counters = f.pool.counters.finish o.isSuccess ∧ g.pool.reply t.serial = .answered o := by
  have hpending := hs.run.balanced.pending_of_running (Multiset.mem_coe.mpr ht)
  have hlt : t.serial < f.pool.submissions.length := (List.getElem?_eq_some_iff.mp hpending).1
  obtain ⟨⟨i, s⟩, hh, hst⟩ := List.mem_filterMap.mp ht
  cases s with
  | running t' =>
    obtain rfl : t' = t := Option.some.inj hst
    refine ⟨⟨i, .running t'⟩, { f with
      pool := f.pool.finish i t' o
      journal := f.journal ++ [.finished t' o] }, ?_, rfl, rfl, ?_⟩
    · simp [Floor.step?, allows, Floor.perform?, Pool.perform?, hh, Pool.move?, note?]
    · exact reply_setReply (p := ({ f.pool with
        slowest := f.pool.slowest.insert ⟨t'.unit.identifier, o.elapsed⟩
        completions := f.pool.completions ++ [⟨t', o⟩] } : Pool).count (·.finish o.isSuccess)) hlt _
  | _ => cases hst

/-- What can be said of the units that start, and of those at work, whoever acts from now on: behind a closed gate only
what has passed starts, and after a discard nothing at all, whoever opens the gate. -/
structure Gated (f : Floor) : Prop where
  closed : f.pool.gate.closed = true → ∀ ds g, .act .resume ∉ ds → f.run? ds = some g →
    g.pool.gate.closed = true ∧ starts g.journal ⊆ starts f.journal ++ f.pool.passed
  discarding : f.pool.discarding = true → ∀ ds g, f.run? ds = some g →
    g.pool.discarding = true ∧ starts g.journal = starts f.journal
  passed : ∀ t ∈ f.pool.passed, ∀ ds g, f.run? ds = some g → g.pool.discarding = false →
    t ∈ g.pool.passed ∨ t ∈ starts g.journal
  start : f.pool.discarding = false → ∀ t ∈ f.pool.passed,
    ∃ h g, f.step? (.act (.move h .start)) = some g ∧ g.journal = f.journal ++ [.started t]
  atWork : ∀ t ∈ f.pool.atWork, ∀ ds g, f.run? ds = some g → t ∈ g.pool.atWork ∨ g.pool.Executed t.serial
  finish : ∀ t ∈ f.pool.atWork, ∀ o, ∃ h g, f.step? (.act (.move h (.finish o))) = some g ∧
    g.pool.completions = f.pool.completions ++ [⟨t, o⟩] ∧
    g.pool.counters = f.pool.counters.finish o.isSuccess ∧ g.pool.reply t.serial = .answered o

theorem gated_of_sound (hs : f.pool.Sound f.journal) : f.Gated where
  closed hg _ _ hd h :=
    have hall := still_closed hs hg hd h
    ⟨hall.closed, hall.started⟩
  discarding hd _ _ h := still_discarding hd h
  passed _ ht _ _ h hd := passed_goesOn hs h hd ht
  start hd _ ht := exists_start hd ht
  atWork _ ht _ _ h := atWork_goesOn hs h ht
  finish _ ht o := exists_finish hs ht o

end Floor
end BatchJob.Worker
