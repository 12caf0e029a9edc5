import BatchJob.Proofs.Worker.Requests

/-! Any number of callers at one worker pool. A caller who submits looks first whether the pool is shut or
discards, then takes hold of the way into the backlog, and only then is the submission counted; between any
two of these steps everybody else may act. -/
namespace BatchJob.Worker
open Work

/-- `asked` are the units whose callers found the pool neither shut nor discarding, and `connected` those
whose callers also hold the way into the backlog; none of them is counted yet. -/
structure Floor where
  pool : Pool
  asked : List WorkUnit
  connected : List WorkUnit
  journal : List Entry

inductive Deed where
  | ask (u : WorkUnit)
  | connect (u : WorkUnit)
  | turnBack (u : WorkUnit)
  | announce (u : WorkUnit)
  | act (a : Act)

namespace Floor

def opened (p : Pool) : Floor := ⟨p, [], [], []⟩

/-- Only callers announce. The way into the backlog is closed to the workers only when nobody holds it. -/
def allows (f : Floor) : Act → Bool
  | .announce _ => false
  | .move _ .leave => f.connected.isEmpty
  | _ => true

def perform? (f : Floor) (a : Act) : Option Floor :=
  (f.pool.perform? a).map fun q => { f with pool := q, journal := f.journal ++ (f.pool.note? a).toList }

def step? (f : Floor) : Deed → Option Floor
  | .ask u =>
    if f.pool.shut ∨ f.pool.discarding then none else some { f with asked := u :: f.asked }
  | .connect u =>
    if u ∈ f.asked ∧ f.pool.accepting then
      some { f with asked := f.asked.erase u, connected := u :: f.connected }
    else none
  | .turnBack u =>
    if u ∈ f.asked ∧ f.pool.accepting = false then some { f with asked := f.asked.erase u } else none
  | .announce u =>
    if u ∈ f.connected then
      ({ f with connected := f.connected.erase u } : Floor).perform? (.announce u)
    else none
  | .act a => if f.allows a then f.perform? a else none

def run? : Floor → List Deed → Option Floor
  | f, [] => some f
  | f, d :: ds => (f.step? d).bind fun g => run? g ds

end Floor

namespace Pool

variable {p q : Pool} {journal : List Entry}

/-- Every unit that was ever submitted has one fate, and the counters, the completions and the answers
agree on it. -/
structure Accounted (p : Pool) (journal : List Entry) : Prop where
  balance : p.counters.submitted =
    p.counters.queued + p.counters.active + p.counters.completed + p.counters.failed +
      p.counters.discarded
  queued_eq : p.counters.queued = p.backlog.length + p.blocked.length + p.claimed.length
  active_eq : p.counters.active = p.atWork.length
  submitted_eq : p.counters.submitted = p.submissions.countP (·.reply ≠ .refused)
  started_once : ((starts journal).map (·.serial)).Nodup
  submitted_started : ∀ t ∈ starts journal, (p.submissions[t.serial]?).map (·.unit) = some t.unit
  executed : ∀ t ∈ starts journal,
    (t ∈ p.atWork ∧ p.reply t.serial = .pending ∧
        p.completions.filter (·.task.serial = t.serial) = []) ∨
      ∃ o, p.completions.filter (·.task.serial = t.serial) = [⟨t, o⟩] ∧
        (p.reply t.serial = .answered o ∨ p.reply t.serial = .fetched o)
  started_completed : ∀ c ∈ p.completions, c.task ∈ starts journal
  completions_eq : p.completions = finishes journal
  -- Whoever asks first that is answered hears the outcome, or else that the unit was dropped.
  first_answer : ∀ i answer, firstAnswer journal i = some answer →
    (∃ c ∈ p.completions, c.task.serial = i ∧ answer = .ok c.outcome) ∨
      (answer = .error .cancelled ∧ p.reply i = .dropped ∧ ∀ t ∈ starts journal, t.serial ≠ i)

theorem reply_of_getElem? {i : Nat} {u : WorkUnit} {r : Reply}
    (h : p.submissions[i]? = some ⟨u, r⟩) : p.reply i = r := by simp [reply, h]

theorem Sound.filter_completions_of_pending (h : p.Sound journal) {t : Task}
    (ht : p.submissions[t.serial]? = some ⟨t.unit, .pending⟩) :
    p.completions.filter (·.task.serial = t.serial) = [] := by
  rw [List.filter_eq_nil_iff]
  intro c hc hs
  have hm := (h.run.balanced.completed.mem_iff c).mp hc
  have he : c.task.serial = t.serial := by simpa using hs
  simp [he, ledger, ht] at hm

theorem Sound.accounted (h : p.Sound journal) : p.Accounted journal := by
  have hb := h.run.balanced
  have htold := h.run.told
  refine ⟨hb.sum_eq, ?_, ?_, hb.submitted_eq, h.run.starts_nodup,
    fun t ht => h.run.unit_of_mem_starts ht, fun t ht => ?_, fun c hc => ?_, h.run.completions_eq,
    fun i answer hi => ?_⟩
  · have hq := hb.queued_eq
    simp only [ledger, Multiset.card_add, Multiset.coe_card] at hq
    omega
  · have ha := hb.active_eq
    simpa [ledger] using ha
  · rcases h.run.mem_starts ht with ⟨hr, hs⟩ | ⟨o, hc, hs⟩
    · exact Or.inl ⟨Multiset.mem_coe.mp hr, reply_of_getElem? hs, h.filter_completions_of_pending hs⟩
    · exact Or.inr ⟨o, h.run.balanced.completed.filter_eq hc, hs.imp reply_of_getElem? reply_of_getElem?⟩
  · have hm : c.task ∈ (starts journal : Multiset Task) := by
      rw [h.run.starts_eq]
      exact Multiset.mem_add.mpr (Or.inr (Multiset.mem_coe.mpr (List.mem_map_of_mem hc)))
    exact Multiset.mem_coe.mp hm
  · cases answer with
    | ok o =>
      left
      obtain ⟨u, hu⟩ := htold.ok i o hi
      exact ⟨⟨⟨i, u⟩, o⟩, (hb.completed.mem_iff ⟨⟨i, u⟩, o⟩).mpr (Or.inr hu), rfl, rfl⟩
    | error e =>
      right
      obtain ⟨rfl, u, hu⟩ := htold.error i e hi
      refine ⟨rfl, reply_of_getElem? hu, fun t ht he => ?_⟩
      rcases h.run.mem_starts ht with ⟨_, hs⟩ | ⟨o, _, hs | hs⟩
      all_goals
        rw [he, hu] at hs
        simp at hs

theorem Sound.counters_giveUp? (h : p.Sound journal) {serial : Nat}
    (hg : p.giveUp? serial = some q) : q.counters.submit = p.counters := by
  have hb := h.run.balanced
  rw [giveUp?] at hg
  split at hg
  · rename_i hblocked
    cases hg
    obtain ⟨t, ht, -, -⟩ := find?_isBlocked hblocked.1
    have hpos : 0 < p.backlog.length + p.blocked.length + p.claimed.length := by
      have := List.length_pos_of_mem ht
      omega
    have hq : 0 < p.counters.queued := h.accounted.queued_eq ▸ hpos
    have hs : 0 < p.counters.submitted := by
      have := h.accounted.balance
      omega
    show p.counters.takeBack.submit = p.counters
    cases hc : p.counters with
    | mk submitted queued active completed failed discarded =>
      rw [hc] at hq hs
      simp only at hq hs
      simp only [Counters.takeBack, Counters.submit, Counters.mk.injEq, and_true]
      omega
  · cases hg

theorem submit_error {u : WorkUnit} {e : PoolError} (h : p.submit u = (.error e, q)) : q = p := by
  rw [submit] at h
  split at h
  · cases h
  · cases h
    rfl

end Pool

namespace Floor
open Pool

variable {f g : Floor}

theorem sound_perform? (h : f.pool.Sound f.journal) {a : Act} (ha : f.perform? a = some g) :
    g.pool.Sound g.journal := by
  obtain ⟨q, hq, rfl⟩ := Option.map_eq_some_iff.mp ha
  exact h.perform? hq

theorem sound_step? (h : f.pool.Sound f.journal) {d : Deed} (hd : f.step? d = some g) :
    g.pool.Sound g.journal := by
  cases d with
  | announce u =>
    simp only [step?] at hd
    split at hd
    · exact sound_perform? (f := { f with connected := f.connected.erase u }) h hd
    · cases hd
  | act a =>
    simp only [step?] at hd
    split at hd
    · exact sound_perform? h hd
    · cases hd
  | ask u =>
    simp only [step?] at hd
    split at hd <;> cases hd
    exact h
  | connect u =>
    simp only [step?] at hd
    split at hd <;> cases hd
    exact h
  | turnBack u =>
    simp only [step?] at hd
    split at hd <;> cases hd
    exact h

theorem sound_run? (h : f.pool.Sound f.journal) {ds : List Deed} (hd : f.run? ds = some g) :
    g.pool.Sound g.journal := by
  induction ds generalizing f with
  | nil =>
    cases hd
    exact h
  | cons d ds ih =>
    obtain ⟨f', hf, hg⟩ := Option.bind_eq_some_iff.mp hd
    exact ih (sound_step? h hf) hg

theorem run?_append {f' : Floor} {ds es : List Deed} (hd : f.run? ds = some f')
    (he : f'.run? es = some g) : f.run? (ds ++ es) = some g := by
  induction ds generalizing f with
  | nil =>
    cases hd
    exact he
  | cons d ds ih =>
    obtain ⟨f₁, hf, hrest⟩ := Option.bind_eq_some_iff.mp hd
    simp only [List.cons_append, run?, hf, Option.bind_some]
    exact ih hrest

/-- Whatever acts make up happens on the floor, if nobody announces and no worker leaves in them. -/
theorem run?_of_leads {allowed : Act → Prop} {q : Pool} {k : List Entry}
    (hallowed : ∀ a, allowed a → f.allows a) (h : Leads allowed f.pool k q) :
    ∃ ds, f.run? ds = some { f with pool := q, journal := f.journal ++ k } := by
  generalize hp : f.pool = p at h
  induction h with
  | refl =>
    subst hp
    exact ⟨[], by simp [run?]⟩
  | @tail q r k a h ha hr ih =>
    obtain ⟨ds, hds⟩ := ih
    refine ⟨ds ++ [.act a], run?_append hds ?_⟩
    have hallow : ({ f with pool := q, journal := f.journal ++ k } : Floor).allows a := hallowed a ha
    simp [run?, step?, hallow, perform?, hr, List.append_assoc]

theorem run?_submit (h : f.pool.Sound f.journal) (ha : f.pool.admits) (u : WorkUnit) :
    ∃ ds, f.run? ds =
      some { f with pool := (f.pool.submit u).2, journal := f.journal ++ [.submitted u] } := by
  have hopen := ha
  simp only [admits, Bool.and_eq_true, Bool.not_eq_true'] at hopen
  obtain ⟨⟨hs, hd⟩, hacc⟩ := hopen
  have hann : f.run? [.ask u, .connect u, .announce u] =
      some { f with pool := f.pool.announce u, journal := f.journal ++ [.submitted u] } := by
    simp [run?, step?, hs, hd, hacc, perform?, Pool.perform?, Pool.note?]
  simp only [Pool.submit, ha, if_true]
  cases hr : f.pool.hasRoom with
  | false => exact ⟨_, by rw [enter_of_full hr]; exact hann⟩
  | true =>
    refine ⟨[.ask u, .connect u, .announce u] ++ [.act (.proceed f.pool.submissions.length)],
      run?_append hann ?_⟩
    simp [run?, step?, allows, perform?, Pool.perform?, Pool.note?, h.admit?_announce hr u]

theorem run?_closeNow (f : Floor) :
    ∃ ds k, f.run? ds = some { f with pool := f.pool.closeNow, journal := f.journal ++ k } := by
  obtain ⟨k, hk⟩ := leads_closeNow f.pool
  obtain ⟨ds, hds⟩ := run?_of_leads (f := f) (by
    rintro a (rfl | rfl | rfl | rfl | rfl) <;> rfl) hk
  exact ⟨ds, k, hds⟩

theorem run?_giveUpAll (f : Floor) :
    ∃ ds k, f.run? ds = some { f with pool := f.pool.giveUpAll, journal := f.journal ++ k } := by
  obtain ⟨k, hk⟩ := leads_giveUpFor f.pool.blocked f.pool
  obtain ⟨ds, hds⟩ := run?_of_leads (f := f) (by rintro a ⟨serial, rfl⟩; rfl) hk
  exact ⟨ds, k, hds⟩

theorem run?_setWorkers (f : Floor) (count : Nat) :
    ∃ ds, f.run? ds = some { f with pool := (f.pool.setWorkers count).2 } := by
  obtain ⟨ds, hds⟩ := run?_of_leads (f := f) (by rintro a ⟨r, rfl⟩; rfl)
    (leads_setWorkers f.pool count)
  exact ⟨ds, by simpa using hds⟩

/-- Whoever does what in whichever order: each submission has one fate that everybody agrees on, and one
that fails leaves the counters as if it had never been made. -/
theorem accounted_of_run {s : Settings} {p : Pool} (hp : Pool.create s = .ok p) {ds : List Deed}
    {f : Floor} (hf : (opened p).run? ds = some f) :
    f.pool.Accounted f.journal ∧
      (∀ u e q, f.pool.submit u = (.error e, q) → q = f.pool) ∧
      ∀ serial q, f.pool.giveUp? serial = some q → q.counters.submit = f.pool.counters := by
  have hs : f.pool.Sound f.journal := sound_run? (sound_create hp) hf
  exact ⟨hs.accounted, fun _ _ _ => submit_error, fun _ _ => hs.counters_giveUp?⟩

/-- Of two units the first is executed and the second dropped, and both callers hear of it. -/
def executeAndDrop (a b : WorkUnit) (o : Outcome) : List Deed :=
  [.ask a, .ask b, .connect a, .announce a, .act (.proceed 0), .act (.move ⟨0, .arriving⟩ .pass),
    .act (.move ⟨0, .looking⟩ .look), .act (.move ⟨0, .choosing⟩ .claim),
    .act (.move ⟨0, .holding ⟨0, a⟩⟩ .pass), .act (.move ⟨0, .starting ⟨0, a⟩⟩ .start),
    .connect b, .announce b, .act (.proceed 1), .act (.move ⟨0, .running ⟨0, a⟩⟩ (.finish o)),
    .act (.fetch 0), .act .discard, .act .drop, .act (.fetch 1)]

theorem accounted_of_executeAndDrop :
    ∃ p f, Pool.create ⟨1, 1, Settings.minStackSize, 5⟩ = .ok p ∧
      (opened p).run? (executeAndDrop (.single 0 "a" .plain) (.single 1 "b" .plain)
        (.success (.ofSeconds 1))) = some f ∧
      f.pool.counters = ⟨2, 0, 0, 1, 0, 1⟩ ∧
      firstAnswer f.journal 0 = some (.ok (.success (.ofSeconds 1))) ∧
      firstAnswer f.journal 1 = some (.error .cancelled) ∧ f.pool.Accounted f.journal := by
  obtain ⟨p, hp⟩ : ∃ p, Pool.create ⟨1, 1, Settings.minStackSize, 5⟩ = .ok p := ⟨_, rfl⟩
  obtain ⟨f, hf, hc, h0, h1⟩ : ∃ f, (opened p).run? (executeAndDrop (.single 0 "a" .plain)
      (.single 1 "b" .plain) (.success (.ofSeconds 1))) = some f ∧
      f.pool.counters = ⟨2, 0, 0, 1, 0, 1⟩ ∧
      firstAnswer f.journal 0 = some (.ok (.success (.ofSeconds 1))) ∧
      firstAnswer f.journal 1 = some (.error .cancelled) := by
    cases hp
    exact ⟨_, rfl, rfl, rfl, rfl⟩
  exact ⟨p, f, hp, hf, hc, h0, h1, (accounted_of_run hp hf).1⟩

end Floor
end BatchJob.Worker
