import BatchJob.Proofs.Worker.Frame

/-! A worker pool where nothing is left to do: no task waits, and none is at work. From then on nothing completes
there and nothing is dropped, whoever acts, and its counters account for all that was accepted. -/
namespace BatchJob.Worker.Pool
open Work

structure Idle (p : Pool) : Prop where
  waiting : p.ledger.waiting = 0
  running : p.ledger.running = 0

variable {p q : Pool} {journal k : List Entry} {a : Act} {allowed : Act → Prop}

theorem idle_of_deserted (hh : p.hands = []) (hq : p.queue = []) : p.Idle := by
  obtain ⟨hblocked, hbacklog⟩ := List.append_eq_nil_iff.mp hq
  constructor
  · simp [ledger, claimed, hh, hblocked, hbacklog]
  · simp [ledger, atWork, hh]

theorem Sound.idle_of_whole (h : p.Sound journal)
    (hl : p.completions.length = p.submissions.length) : p.Idle ∧ p.counters.discarded = 0 := by
  have hb := h.run.balanced
  have hsum := hb.sum_eq
  have hcount := h.length_completions
  have hle := h.submitted_le
  simp only [ledger, Counters.sum] at hsum
  have hqueued : p.ledger.counters.queued = 0 := by
    simp only [ledger]
    omega
  have hactive : p.ledger.counters.active = 0 := by
    simp only [ledger]
    omega
  rw [hb.queued_eq, Multiset.card_eq_zero] at hqueued
  rw [hb.active_eq, Multiset.card_eq_zero] at hactive
  exact ⟨⟨hqueued, hactive⟩, by omega⟩

theorem queue_of_leads (hallowed : ∀ a, allowed a → Internal a) (h : Leads allowed p k q) :
    (∀ t ∈ q.queue, t ∈ p.queue) ∧ ∀ t ∈ q.blocked, t ∈ p.blocked := by
  induction h with
  | refl => exact ⟨fun _ => id, fun _ => id⟩
  | tail _ ha hr ih =>
    have hk := keeps_perform? (fun u hu => by subst hu; exact hallowed _ ha) hr
    exact ⟨fun t ht => ih.1 t (hk.queue t ht), fun t ht => ih.2 t (hk.blocked t ht)⟩

theorem queue_eq_nil_of_leads (hallowed : ∀ a, allowed a → Internal a) (hq : p.queue = [])
    (h : Leads allowed p k q) : q.queue = [] :=
  List.eq_nil_iff_forall_not_mem.mpr fun t ht => by simpa [hq] using (queue_of_leads hallowed h).1 t ht

theorem close_keeps (p : Pool) : p.close.queue = p.queue ∧ p.close.completions = p.completions ∧
    p.close.received = p.received := by
  rw [Pool.close]
  split <;> exact ⟨rfl, rfl, rfl⟩

theorem completions_of_leads (hallowed : ∀ a, allowed a → Internal a) (h : Leads allowed p k q) :
    p.completions <+: q.completions ∧ q.received = p.received := by
  induction h with
  | refl => exact ⟨List.prefix_refl _, rfl⟩
  | tail _ ha hr ih =>
    have hk := keeps_perform? (fun u hu => by subst hu; exact hallowed _ ha) hr
    exact ⟨ih.1.trans hk.completions,
      (hk.received fun he => by subst he; exact hallowed _ ha).trans ih.2⟩

theorem Idle.perform? (h : p.Idle) (hs : p.Sound journal) (ha : Internal a)
    (hq : p.perform? a = some q) :
    q.Idle ∧ q.completions = p.completions ∧ q.counters = p.counters := by
  obtain ⟨hf, -⟩ := follows_perform? hs.crewed hs.distinct hq
  have hsame : ∀ l : Ledger, q.ledger = l → l.waiting = 0 → l.running = 0 →
      l.completions = p.completions → l.counters = p.counters →
      q.Idle ∧ q.completions = p.completions ∧ q.counters = p.counters := by
    rintro l rfl hw hr hc hn
    exact ⟨⟨hw, hr⟩, hc, hn⟩
  generalize hn : p.note? a = note at hf
  generalize hl : q.ledger = l at hf
  cases hf with
  | quiet => exact hsame _ hl h.waiting h.running rfl rfl
  | entry hstep =>
    cases hstep with
    | submit u => exact absurd (quiet_of_note? ha hn) id
    | refuse hw =>
      rw [h.waiting] at hw
      exact absurd hw.symm (Multiset.cons_ne_zero)
    | drop hw =>
      rw [h.waiting] at hw
      exact absurd hw.symm (Multiset.cons_ne_zero)
    | start hw =>
      rw [h.waiting] at hw
      exact absurd hw.symm (Multiset.cons_ne_zero)
    | finish hr o =>
      rw [h.running] at hr
      exact absurd hr.symm (Multiset.cons_ne_zero)
    | tell => exact hsame _ hl h.waiting h.running rfl rfl
    | tellCancelled => exact hsame _ hl h.waiting h.running rfl rfl

theorem Idle.leads (h : p.Idle) (hs : p.Sound journal) (hallowed : ∀ a, allowed a → Internal a)
    (hq : Leads allowed p k q) :
    q.Idle ∧ q.completions = p.completions ∧ q.counters = p.counters := by
  induction hq with
  | refl => exact ⟨h, rfl, rfl⟩
  | tail hpq ha hr ih =>
    obtain ⟨hidle, hc, hn⟩ := ih
    obtain ⟨hidle', hc', hn'⟩ := hidle.perform? (hs.leads hpq) (hallowed _ ha) hr
    exact ⟨hidle', hc'.trans hc, hn'.trans hn⟩

theorem Idle.length_accepted (h : p.Idle) (hs : p.Sound journal) :
    p.accepted.length = p.completions.length + p.counters.discarded := by
  have hb := hs.run.balanced
  have hsum := hb.sum_eq
  have hqueued := hb.queued_eq
  have hactive := hb.active_eq
  rw [h.waiting, Multiset.card_zero] at hqueued
  rw [h.running, Multiset.card_zero] at hactive
  rw [hs.length_accepted, hs.length_completions]
  simp only [ledger, Counters.sum] at hsum hqueued hactive
  omega

theorem Idle.perm_starts (h : p.Idle) (hs : p.Sound journal) :
    (starts journal).Perm (p.completions.map (·.task)) := by
  have hstarts := hs.run.starts_eq
  rw [h.running, Multiset.zero_add] at hstarts
  exact Multiset.coe_eq_coe.mp hstarts

/-- The unit completed once, with the outcome of its reply. -/
def Executed (p : Pool) (serial : Nat) : Prop :=
  ∃ c, p.completions.filter (·.task.serial = serial) = [c] ∧
    (p.reply serial = .answered c.outcome ∨ p.reply serial = .fetched c.outcome)

theorem Idle.executed (h : p.Idle) (hs : p.Sound journal) (hd : p.counters.discarded = 0) {serial : Nat}
    (ha : p.isAccepted serial) : p.Executed serial := by
  have hb := hs.run.balanced
  obtain ⟨u, hu, hne⟩ := getElem?_of_isAccepted ha
  have hdone : ∀ o, p.submissions[serial]? = some ⟨u, .answered o⟩ ∨
      p.submissions[serial]? = some ⟨u, .fetched o⟩ →
      p.completions.filter (·.task.serial = serial) = [⟨⟨serial, u⟩, o⟩] := fun o ho =>
    hb.completed.filter_eq ((hb.completed.mem_iff ⟨⟨serial, u⟩, o⟩).mpr ho)
  cases hr : p.reply serial with
  | pending =>
    rw [hr] at hu
    have hm : (⟨serial, u⟩ : Task) ∈ p.ledger.waiting + p.ledger.running := (hb.tasks.mem_iff _).mpr hu
    rw [h.waiting, h.running, Multiset.add_zero] at hm
    exact absurd hm (Multiset.notMem_zero _)
  | answered o =>
    rw [hr] at hu
    exact ⟨_, hdone o (Or.inl hu), Or.inl hr⟩
  | fetched o =>
    rw [hr] at hu
    exact ⟨_, hdone o (Or.inr hu), Or.inr hr⟩
  | dropped =>
    rw [hr] at hu
    have hcount : p.submissions.countP (·.reply = .dropped) = 0 := hb.discarded_eq.symm.trans hd
    exact absurd (List.countP_eq_zero.mp hcount _ (List.mem_of_getElem? hu)) (by simp)
  | refused => exact absurd hr hne

theorem Sound.nodup_serials (h : p.Sound journal) : (p.completions.map (·.task.serial)).Nodup :=
  h.run.balanced.completed.nodup.map_on fun _ hc _ hd he =>
    h.run.balanced.completed.eq_of_serial hc hd he

end BatchJob.Worker.Pool
