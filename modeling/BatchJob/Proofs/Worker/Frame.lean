import BatchJob.Proofs.Worker.Requests

/-! What the single acts at a worker pool leave as it was. -/
namespace BatchJob.Worker.Pool
open Work

/-- The tasks on their way into the backlog or in it. -/
def queue (p : Pool) : List Task := p.blocked ++ p.backlog

variable {p q : Pool}

/-- What an act other than an announcement leaves as it was; only an admission fills the backlog. -/
structure Keeps (a : Act) (p q : Pool) : Prop where
  discarding : p.discarding → q.discarding
  queue : ∀ t ∈ q.queue, t ∈ p.queue
  submissions : p.submissions.length ≤ q.submissions.length
  backlog : (∀ serial, a ≠ .proceed serial) → p.backlog = [] → q.backlog = []
  blocked : ∀ t ∈ q.blocked, t ∈ p.blocked
  completions : p.completions <+: q.completions
  received : a ≠ .receive → q.received = p.received

variable {a : Act}

theorem keeps_of_eq (hd : q.discarding = p.discarding) (hb : q.blocked = p.blocked)
    (hl : q.backlog = p.backlog) (hs : q.submissions = p.submissions)
    (hc : q.completions = p.completions) (hr : q.received = p.received) : Keeps a p q :=
  ⟨fun h => hd ▸ h, fun t ht => by simpa [Pool.queue, hb, hl] using ht, hs ▸ le_rfl,
    fun _ he => hl ▸ he, fun t ht => hb ▸ ht, hc ▸ List.prefix_refl _, fun _ => hr⟩

theorem keeps_admit? {serial : Nat} (h : p.admit? serial = some q) :
    Keeps (.proceed serial) p q := by
  rw [admit?] at h
  split at h
  · cases h
  · rename_i t ht
    split at h
    · cases h
      refine ⟨id, fun t' ht' => ?_, le_rfl, fun hne _ => absurd rfl (hne serial),
        fun _ => List.mem_of_mem_filter, List.prefix_refl _, fun _ => rfl⟩
      simp only [queue, unblock, List.mem_append, List.mem_filter, List.mem_singleton] at ht' ⊢
      rcases ht' with ⟨hb, _⟩ | hl | rfl
      · exact Or.inl hb
      · exact Or.inr hl
      · exact Or.inl (List.mem_of_find?_eq_some ht)
    · cases h

theorem keeps_giveUp? {serial : Nat} (h : p.giveUp? serial = some q) : Keeps a p q := by
  rw [giveUp?] at h
  split at h
  · cases h
    refine ⟨id, fun t ht => ?_, by simp [unblock, count], fun _ => id,
      fun _ => List.mem_of_mem_filter, List.prefix_refl _, fun _ => rfl⟩
    simp only [queue, unblock, count, setReply, List.mem_append, List.mem_filter] at ht ⊢
    exact ht.imp_left And.left
  · cases h

theorem keeps_drop? (h : p.drop? = some q) : Keeps a p q := by
  rw [drop?] at h
  split at h
  · cases h
  · rename_i t rest hb
    cases h
    refine ⟨id, fun t' ht => ?_, by simp [count], fun _ he => by simp [hb] at he,
      fun _ => id, List.prefix_refl _, fun _ => rfl⟩
    simp only [queue, count, setReply, List.mem_append] at ht ⊢
    rw [hb]
    exact ht.imp_right fun hm => List.mem_cons_of_mem _ hm

theorem keeps_step (r : Resize) (p : Pool) : Keeps a p (r.step p).2 := by
  cases r with
  | asked count =>
    simp only [Resize.step]
    split <;> exact keeps_of_eq rfl rfl rfl rfl rfl rfl
  | retiring n => cases n <;> exact keeps_of_eq rfl rfl rfl rfl rfl rfl
  | reclaiming n =>
    cases n with
    | zero => exact keeps_of_eq rfl rfl rfl rfl rfl rfl
    | succ n =>
      simp only [Resize.step]
      split <;> exact keeps_of_eq rfl rfl rfl rfl rfl rfl
  | spawning n => cases n <;> exact keeps_of_eq rfl rfl rfl rfl rfl rfl
  | done => exact keeps_of_eq rfl rfl rfl rfl rfl rfl

theorem keeps_move? {i : Nat} {st : Station} {m : Move} (h : p.move? i st m = some q) :
    Keeps a p q := by
  cases moved_of_move? h with
  | @claim t rest hb =>
    refine ⟨id, fun t' ht' => ?_, le_rfl, fun _ he => by simp [hb] at he, fun _ => id, List.prefix_refl _,
      fun _ => rfl⟩
    simp only [queue, moveTo, List.mem_append] at ht' ⊢
    rw [hb]
    exact ht'.imp_right fun hm => List.mem_cons_of_mem _ hm
  | start =>
    rw [start]
    split
    · exact ⟨id, fun _ => id, by simp [Pool.exit, count], fun _ => id, fun _ => id, List.prefix_refl _,
        fun _ => rfl⟩
    · exact keeps_of_eq rfl rfl rfl rfl rfl rfl
  | finish o =>
    exact ⟨id, fun _ => id, by simp [finish, moveTo, count], fun _ => id, fun _ => id,
      List.prefix_append _ _, fun _ => rfl⟩
  | _ => exact keeps_of_eq rfl rfl rfl rfl rfl rfl

theorem keeps_perform? (ha : ∀ u, a ≠ .announce u) (h : p.perform? a = some q) :
    Keeps a p q := by
  cases a with
  | announce u => exact absurd rfl (ha u)
  | proceed serial => exact keeps_admit? h
  | giveUp serial => exact keeps_giveUp? h
  | drop => exact keeps_drop? h
  | discard =>
    cases h
    exact ⟨fun _ => rfl, fun _ => id, le_rfl, fun _ => id, fun _ => id, List.prefix_refl _, fun _ => rfl⟩
  | resize r =>
    cases h
    exact keeps_step r p
  | move hand m =>
    simp only [perform?] at h
    split at h
    · exact keeps_move? h
    · cases h
  | fetch serial =>
    simp only [perform?] at h
    split at h
    · cases h
      rw [fetch]
      split <;>
        exact ⟨id, fun _ => id, by simp, fun _ => id, fun _ => id, List.prefix_refl _, fun _ => rfl⟩
    · cases h
  | receive =>
    cases h
    rw [receive]
    split <;>
      exact ⟨id, fun _ => id, le_rfl, fun _ => id, fun _ => id, List.prefix_refl _, fun hr => absurd rfl hr⟩
  | _ =>
    cases h
    exact keeps_of_eq rfl rfl rfl rfl rfl rfl

theorem hands_perform? (hm : ∀ h m, a ≠ .move h m) (hr : ∀ r, a ≠ .resize r) (hq : p.perform? a = some q) :
    q.hands = p.hands ∧ q.tokens = p.tokens := by
  cases a with
  | move h m => exact absurd rfl (hm h m)
  | resize r => exact absurd rfl (hr r)
  | proceed serial =>
    simp only [perform?, admit?] at hq
    split at hq
    · cases hq
    · split at hq <;> cases hq
      exact ⟨rfl, rfl⟩
  | giveUp serial =>
    simp only [perform?, giveUp?] at hq
    split at hq <;> cases hq
    exact ⟨rfl, rfl⟩
  | drop =>
    simp only [perform?, drop?] at hq
    split at hq <;> cases hq
    exact ⟨rfl, rfl⟩
  | fetch serial =>
    simp only [perform?] at hq
    split at hq <;> cases hq
    rw [fetch]
    split <;> exact ⟨rfl, rfl⟩
  | receive =>
    cases hq
    rw [receive]
    split <;> exact ⟨rfl, rfl⟩
  | _ =>
    cases hq
    exact ⟨rfl, rfl⟩

/-- The units of all submissions, those that were taken back among them. -/
def units (p : Pool) : List WorkUnit := p.submissions.map (·.unit)

/-- The units of all submissions but those that were taken back, in the order of submission. -/
def accepted (p : Pool) : List WorkUnit := (p.submissions.filter (·.reply ≠ .refused)).map (·.unit)

theorem reply_eq_refused_iff {i : Nat} :
    p.reply i = .refused ↔ ∃ u, p.submissions[i]? = some ⟨u, .refused⟩ := by
  rw [reply]
  cases hs : p.submissions[i]? with
  | none => simp
  | some s =>
    obtain ⟨u, r⟩ := s
    simp

theorem filter_of_not_refused {submissions : List Submission}
    (h : ∀ s ∈ submissions, s.reply ≠ .refused) :
    submissions.filter (·.reply ≠ .refused) = submissions :=
  List.filter_eq_self.mpr fun s hs => by simpa using h s hs

theorem accepted_eq (h : ∀ i, p.reply i ≠ .refused) : p.accepted = p.units := by
  rw [accepted, filter_of_not_refused, units]
  intro s hs he
  obtain ⟨i, hi⟩ := List.getElem?_of_mem hs
  refine h i (reply_eq_refused_iff.mpr ⟨s.unit, ?_⟩)
  rw [hi, ← he]

theorem accepted_prefix (h : ∀ i, p.reply i = .refused → i + 1 = p.submissions.length) :
    p.accepted <+: p.units := by
  rcases List.eq_nil_or_concat p.submissions with hnil | ⟨front, last, hsnoc⟩
  · simp [accepted, units, hnil]
  · have hfront : ∀ s ∈ front, s.reply ≠ .refused := by
      intro s hs he
      obtain ⟨i, hi⟩ := List.getElem?_of_mem hs
      have hlt := (List.getElem?_eq_some_iff.mp hi).1
      have hr : p.reply i = .refused := by
        refine reply_eq_refused_iff.mpr ⟨s.unit, ?_⟩
        rw [hsnoc, List.concat_eq_append, List.getElem?_append_left hlt, hi, ← he]
      have hl := h i hr
      rw [hsnoc, List.concat_eq_append, List.length_append, List.length_singleton] at hl
      omega
    rw [accepted, units, hsnoc, List.concat_eq_append, List.filter_append, List.map_append,
      List.map_append, filter_of_not_refused hfront]
    refine (List.prefix_append_right_inj _).mpr ?_
    by_cases hl : last.reply = .refused <;> simp [hl]

/-- An entry that makes no submission and takes none back. -/
def Quiet : Entry → Prop
  | .submitted _ => False
  | .refused _ => False
  | _ => True

def SameSubmissions (xs ys : List Submission) : Prop :=
  ys.map (·.unit) = xs.map (·.unit) ∧
    ∀ (i : Nat) (u : WorkUnit), ys[i]? = some ⟨u, .refused⟩ ↔ xs[i]? = some ⟨u, .refused⟩

theorem sameSubmissions_setReplyAt {submissions : List Submission} {i : Nat} {s : Submission}
    (h : submissions[i]? = some s) (hs : s.reply ≠ .refused) {r : Reply} (hr : r ≠ .refused) :
    SameSubmissions submissions (setReplyAt submissions i r) := by
  refine ⟨map_unit_setReplyAt _ _ _, fun j u => ?_⟩
  by_cases hj : i = j
  · subst hj
    rw [getElem?_setReplyAt_self h, h]
    obtain ⟨v, r'⟩ := s
    simp_all
  · rw [getElem?_setReplyAt_of_ne hj]

theorem sameSubmissions_of_step {l l' : Ledger} {e : Entry} (hb : l.Balanced)
    (hs : Ledger.Step l e l') (he : Quiet e) : SameSubmissions l.submissions l'.submissions := by
  cases hs with
  | submit => exact absurd he id
  | refuse => exact absurd he id
  | @drop t _ hw =>
    have ht := hb.pending_of_waiting (t := t) (by simp [hw])
    exact sameSubmissions_setReplyAt ht (by simp) (by simp)
  | start => exact ⟨rfl, fun _ _ => Iff.rfl⟩
  | @finish t _ hr o =>
    have ht := hb.pending_of_running (t := t) (by simp [hr])
    exact sameSubmissions_setReplyAt ht (by simp) (by simp)
  | tell hi => exact sameSubmissions_setReplyAt hi (by simp) (by simp)
  | tellCancelled => exact ⟨rfl, fun _ _ => Iff.rfl⟩

/-- Acts of others than those who submit and receive. -/
def Internal : Act → Prop
  | .announce _ => False
  | .giveUp _ => False
  | .receive => False
  | _ => True

/-- The submissions and what was received of the completions are the business of those who make them. -/
structure Serves (p q : Pool) : Prop where
  units : q.units = p.units
  refused : ∀ i, q.reply i = .refused ↔ p.reply i = .refused
  completions : p.completions <+: q.completions
  blocked : ∀ t ∈ q.blocked, t ∈ p.blocked
  received : q.received = p.received

theorem Serves.refl (p : Pool) : p.Serves p := ⟨rfl, fun _ => Iff.rfl, List.prefix_refl _, fun _ => id, rfl⟩

theorem Serves.trans {r : Pool} (h : p.Serves q) (h' : q.Serves r) : p.Serves r where
  units := h'.units.trans h.units
  refused i := (h'.refused i).trans (h.refused i)
  completions := h.completions.trans h'.completions
  blocked t ht := h.blocked t (h'.blocked t ht)
  received := h'.received.trans h.received

theorem Serves.blocked_nil (h : p.Serves q) (hb : p.blocked = []) : q.blocked = [] :=
  List.eq_nil_iff_forall_not_mem.mpr fun t ht => by
    have hold := h.blocked t ht
    rw [hb] at hold
    cases hold

theorem quiet_of_note? (ha : Internal a) {e : Entry} (he : p.note? a = some e) : Quiet e := by
  cases a with
  | announce => exact absurd ha id
  | giveUp => exact absurd ha id
  | drop =>
    obtain ⟨t, -, rfl⟩ := Option.map_eq_some_iff.mp he
    trivial
  | move h m =>
    obtain ⟨i, s⟩ := h
    cases s with
    | starting t =>
      cases m with
      | start =>
        cases he
        split <;> trivial
      | _ => cases he
    | running t =>
      cases m with
      | finish o =>
        cases he
        trivial
      | _ => cases he
    | _ => cases he
  | fetch serial =>
    simp only [note?] at he
    split at he
    · cases he
    · cases he
      trivial
  | _ => cases he

theorem Sound.serves_perform? {journal : List Entry} (h : p.Sound journal) (ha : Internal a)
    (hq : p.perform? a = some q) : p.Serves q := by
  have hk := keeps_perform? (fun u hu => by subst hu; exact ha) hq
  have hr : a ≠ .receive := fun hr => by subst hr; exact ha
  obtain ⟨hf, -⟩ := follows_perform? h.crewed h.distinct hq
  generalize hn : p.note? a = note at hf
  generalize hl : q.ledger = l at hf
  cases hf with
  | quiet =>
    have hs : q.submissions = p.submissions := congrArg Ledger.submissions hl
    refine ⟨by rw [units, units, hs], fun i => ?_, hk.completions, hk.blocked, hk.received hr⟩
    rw [reply, reply, hs]
  | entry hs =>
    have hsame := sameSubmissions_of_step h.run.balanced hs (quiet_of_note? ha hn)
    rw [← hl] at hsame
    refine ⟨hsame.1, fun i => ?_, hk.completions, hk.blocked, hk.received hr⟩
    rw [reply_eq_refused_iff, reply_eq_refused_iff]
    exact exists_congr (hsame.2 i)

theorem Sound.serves_leads {journal k : List Entry} {allowed : Act → Prop} (h : p.Sound journal)
    (hallowed : ∀ a, allowed a → Internal a) (hq : Leads allowed p k q) : p.Serves q := by
  induction hq with
  | refl => exact .refl p
  | tail hpq ha hr ih => exact ih.trans ((h.leads hpq).serves_perform? (hallowed _ ha) hr)

theorem Sound.length_completions {journal : List Entry} (h : p.Sound journal) :
    p.completions.length = p.counters.completed + p.counters.failed := by
  have hc := h.run.balanced.completed_eq
  have hf := h.run.balanced.failed_eq
  simp only [ledger] at hc hf
  rw [hc, hf, List.length_eq_countP_add_countP (·.outcome.isSuccess)]
  simp

theorem Sound.length_accepted {journal : List Entry} (h : p.Sound journal) :
    p.accepted.length = p.counters.submitted := by
  have hs := h.run.balanced.submitted_eq
  simp only [ledger] at hs
  rw [hs, accepted, List.length_map, List.countP_eq_length_filter]

theorem Sound.submitted_le {journal : List Entry} (h : p.Sound journal) :
    p.counters.submitted ≤ p.submissions.length := by
  rw [← h.length_accepted, accepted, List.length_map]
  exact List.length_filter_le _ _

theorem Sound.length_completions_le {journal : List Entry} (h : p.Sound journal) :
    p.completions.length ≤ p.submissions.length := by
  have hsum := h.run.balanced.sum_eq
  have hcount := h.length_completions
  have hle := h.submitted_le
  simp only [ledger, Counters.sum] at hsum
  omega

theorem receive_some {done : Completed} (h : p.completions[p.received]? = some done) :
    p.receive = (some done, { p with received := p.received + 1 }) := by simp [receive, h]

theorem receive_none (h : p.completions[p.received]? = none) : p.receive = (none, p) := by
  simp [receive, h]

def tasks (p : Pool) : List Task := p.submissions.mapIdx fun i s => ⟨i, s.unit⟩

theorem mem_tasks {t : Task} : t ∈ p.tasks ↔ (p.submissions[t.serial]?).map (·.unit) = some t.unit := by
  rw [tasks, List.mem_iff_getElem?, Option.map_eq_some_iff]
  constructor
  · rintro ⟨i, hi⟩
    rw [List.getElem?_mapIdx, Option.map_eq_some_iff] at hi
    obtain ⟨s, hs, rfl⟩ := hi
    exact ⟨s, hs, rfl⟩
  · rintro ⟨s, hs, hu⟩
    refine ⟨t.serial, ?_⟩
    rw [List.getElem?_mapIdx, hs, Option.map_some, hu]

theorem map_unit_tasks (p : Pool) : p.tasks.map (·.unit) = p.units := by
  apply List.ext_getElem?
  intro i
  rw [tasks, units, List.getElem?_map, List.getElem?_mapIdx, List.getElem?_map, Option.map_map]
  rfl

/-- Where there are as many completions as submissions, these are the same tasks. -/
theorem Sound.perm_tasks {journal : List Entry} (h : p.Sound journal)
    (hl : p.completions.length = p.submissions.length) :
    (p.completions.map (·.task)).Perm p.tasks := by
  have hclosed := h.run.balanced.completed
  have hsub : p.completions.map (·.task) ⊆ p.tasks := by
    intro t ht
    obtain ⟨c, hc, rfl⟩ := List.mem_map.mp ht
    have hanswer := (hclosed.mem_iff c).mp hc
    simp only [ledger] at hanswer
    rw [mem_tasks]
    rcases hanswer with ha | ha <;> rw [ha] <;> rfl
  have hlen : p.tasks.length ≤ (p.completions.map (·.task)).length := by
    rw [tasks, List.length_mapIdx, List.length_map, hl]
  exact (List.subperm_of_subset hclosed.nodup_tasks hsub).perm_of_length_le hlen

theorem units_enter (p : Pool) (u : WorkUnit) :
    (p.enter u).units = p.units ++ [u] ∧
      (p.enter u).submissions = p.submissions ++ [⟨u, .pending⟩] ∧
      (p.enter u).completions = p.completions ∧ (p.enter u).received = p.received ∧
      (p.enter u).blocked =
        if p.hasRoom then p.blocked else p.blocked ++ [⟨p.submissions.length, u⟩] := by
  have hroom : ({ p.count .submit with submissions := p.submissions ++ [⟨u, .pending⟩] } : Pool).hasRoom =
      p.hasRoom := rfl
  simp only [enter, place, hroom]
  cases p.hasRoom <;> simp [units, count]

theorem reply_enter (u : WorkUnit) {i : Nat} (h : (p.enter u).reply i = .refused) :
    p.reply i = .refused := by
  obtain ⟨v, hv⟩ := reply_eq_refused_iff.mp h
  rw [(units_enter p u).2.1] at hv
  by_cases hi : i < p.submissions.length
  · rw [List.getElem?_append_left hi] at hv
    exact reply_eq_refused_iff.mpr ⟨v, hv⟩
  · rw [List.getElem?_append_right (by omega)] at hv
    cases hn : i - p.submissions.length with
    | zero => simp [hn] at hv
    | succ n => simp [hn] at hv

theorem giveUp?_serves {serial : Nat} (h : p.giveUp? serial = some q) :
    q.units = p.units ∧ q.completions = p.completions ∧ q.received = p.received ∧
      (∀ t ∈ q.blocked, t ∈ p.blocked) ∧
      ∀ i, q.reply i = .refused → p.reply i = .refused ∨ i = serial := by
  rw [giveUp?] at h
  split at h
  · cases h
    refine ⟨map_unit_setReplyAt _ _ _, rfl, rfl, fun _ => List.mem_of_mem_filter, fun i hi => ?_⟩
    by_cases he : serial = i
    · exact Or.inr he.symm
    · rw [reply_setReply_of_ne he] at hi
      exact Or.inl hi
  · cases h

end BatchJob.Worker.Pool
