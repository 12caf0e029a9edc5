import BatchJob.Proofs.Worker.Crew
import BatchJob.Proofs.Worker.Journal
import BatchJob.Worker.Resize

/-! The single steps of everybody at a worker pool: those who submit, those who command it, the workers,
and those who wait for answers. Each makes at most one entry in the journal. -/
namespace BatchJob.Worker
open Work

/-- A submission is announced, and then proceeds to the backlog or is given up; a pool shuts down by
shutting, opening the gate and putting nothing more into the backlog; `drop` discards one task. -/
inductive Act where
  | announce (u : WorkUnit)
  | proceed (serial : Nat)
  | giveUp (serial : Nat)
  | drop
  | discard
  | pause
  | resume
  | shut
  | disconnect
  | resize (r : Resize)
  | move (h : Hand) (m : Move)
  | fetch (serial : Nat)
  | receive

namespace Pool

/-- A submission is counted, and its task looks for room in the backlog. -/
def announce (p : Pool) (u : WorkUnit) : Pool :=
  { p.count .submit with
    submissions := p.submissions ++ [⟨u, .pending⟩]
    blocked := p.blocked ++ [⟨p.submissions.length, u⟩] }

/-- The submission was made, and whoever made it knows that it was not refused. -/
def isAccepted (p : Pool) (serial : Nat) : Bool :=
  serial < p.submissions.length && !p.isBlocked serial && p.reply serial ≠ .refused

def perform? (p : Pool) : Act → Option Pool
  | .announce u => some (p.announce u)
  | .proceed serial => p.admit? serial
  | .giveUp serial => p.giveUp? serial
  | .drop => p.drop?
  | .discard => some p.discard
  | .pause => some p.pause
  | .resume => some p.resume
  | .shut => some { p with shut := true }
  | .disconnect => some { p with accepting := false }
  | .resize r => some (r.step p).2
  | .move h m => if h ∈ p.hands then p.move? h.id h.station m else none
  | .fetch serial => if p.isAccepted serial then some (p.fetch serial).2 else none
  | .receive => some p.receive.2

/-- What the journal says about an act. -/
def note? (p : Pool) : Act → Option Entry
  | .announce u => some (.submitted u)
  | .giveUp serial => (p.blocked.find? (·.serial = serial)).map .refused
  | .drop => p.backlog.head?.map .dropped
  | .move ⟨_, .starting t⟩ .start => some (if p.discarding then .dropped t else .started t)
  | .move ⟨_, .running t⟩ (.finish o) => some (.finished t o)
  | .fetch serial =>
    if p.reply serial = .pending then none else some (.told serial (p.fetch serial).1)
  | _ => none

variable {p q : Pool}

theorem find?_isBlocked {serial : Nat} (h : p.isBlocked serial) :
    ∃ t ∈ p.blocked, t.serial = serial ∧ p.blocked.find? (·.serial = serial) = some t := by
  cases hf : p.blocked.find? (·.serial = serial) with
  | none =>
    obtain ⟨t, ht, hs⟩ := List.any_eq_true.mp h
    exact absurd hs (by simpa using List.find?_eq_none.mp hf t ht)
  | some t => exact ⟨t, List.mem_of_find?_eq_some hf, by simpa using List.find?_some hf, rfl⟩

/-- The serials of those who wait are not used twice. -/
def Distinct (p : Pool) : Prop := (p.blocked.map (·.serial)).Nodup

theorem Distinct.unblock (hd : p.Distinct) {t : Task} (ht : t ∈ p.blocked) :
    (p.blocked : Multiset Task) = t ::ₘ ((p.unblock t.serial).blocked : Multiset Task) := by
  obtain ⟨before, after, he, -, -, hrest⟩ := exists_split hd ht
  have hblocked : (p.unblock t.serial).blocked = before ++ after := hrest
  rw [hblocked, he, Multiset.cons_coe, Multiset.coe_eq_coe]
  exact List.perm_middle

theorem distinct_of_balanced (h : p.ledger.Balanced) : p.Distinct := by
  have hn : ((p.blocked : Multiset Task)).Nodup := by
    have hall := h.tasks.nodup
    simp only [ledger, Multiset.nodup_add] at hall
    exact hall.1.1.1
  have hopen : ∀ t ∈ p.blocked, p.submissions[t.serial]? = some ⟨t.unit, .pending⟩ := fun t ht =>
    h.pending_of_waiting (by simp [ledger, ht])
  refine (Multiset.coe_nodup.mp hn).map_on fun t ht t' ht' he => ?_
  have h1 := hopen t ht
  rw [he, hopen t' ht'] at h1
  cases t
  cases t'
  simp_all

open Ledger in
theorem follows_announce (p : Pool) (u : WorkUnit) :
    Follows p.ledger (some (.submitted u)) (p.announce u).ledger := by
  have hl : (p.announce u).ledger = { p.ledger with
      waiting := ⟨p.submissions.length, u⟩ ::ₘ p.ledger.waiting
      submissions := p.submissions ++ [⟨u, .pending⟩]
      counters := p.counters.submit } := by
    simp only [ledger, announce, count, claimed, atWork, Ledger.mk.injEq, and_true]
    rw [← Multiset.coe_add, Multiset.coe_singleton, Multiset.add_comm (p.blocked : Multiset Task),
      Multiset.singleton_add, Multiset.cons_add, Multiset.cons_add]
  rw [hl]
  exact .entry (.submit p.ledger u)

theorem ledger_admit? (hd : p.Distinct) {serial : Nat} (h : p.admit? serial = some q) :
    q.ledger = p.ledger ∧ q.hands = p.hands ∧ q.nextHand = p.nextHand := by
  rw [admit?] at h
  split at h
  · cases h
  · rename_i t ht
    split at h
    · cases h
      have hs : t.serial = serial := by simpa using List.find?_some ht
      subst hs
      refine ⟨?_, rfl, rfl⟩
      simp only [ledger, Ledger.mk.injEq]
      refine ⟨?_, rfl, rfl, rfl, rfl⟩
      rw [hd.unblock (List.mem_of_find?_eq_some ht), ← Multiset.coe_add, Multiset.coe_singleton,
        Multiset.add_comm (p.backlog : Multiset Task), ← Multiset.add_assoc,
        Multiset.add_comm _ {t}, Multiset.singleton_add]
      rfl
    · cases h

open Ledger in
theorem follows_giveUp? (hd : p.Distinct) {serial : Nat} (h : p.giveUp? serial = some q) :
    Follows p.ledger ((p.blocked.find? (·.serial = serial)).map .refused) q.ledger ∧
      q.hands = p.hands ∧ q.nextHand = p.nextHand := by
  rw [giveUp?] at h
  split at h
  · rename_i hb
    cases h
    obtain ⟨t, ht, rfl, hf⟩ := find?_isBlocked hb.1
    refine ⟨?_, rfl, rfl⟩
    have hw : p.ledger.waiting = t ::ₘ ((p.unblock t.serial).ledger.waiting) := by
      simp only [ledger]
      rw [hd.unblock ht, Multiset.cons_add, Multiset.cons_add]
      rfl
    rw [hf]
    exact .entry (.refuse hw)
  · cases h

open Ledger in
theorem follows_drop? (h : p.drop? = some q) :
    Follows p.ledger (p.backlog.head?.map .dropped) q.ledger ∧
      q.hands = p.hands ∧ q.nextHand = p.nextHand := by
  rw [drop?] at h
  split at h
  · cases h
  · rename_i t rest hb
    cases h
    refine ⟨?_, rfl, rfl⟩
    have hw : p.ledger.waiting = t ::ₘ (({ p with backlog := rest } : Pool).ledger.waiting) := by
      simp only [ledger, hb]
      rw [← Multiset.cons_coe, Multiset.add_cons, Multiset.cons_add]
      rfl
    rw [hb]
    exact .entry (.drop hw)

theorem ledger_step (r : Resize) (p : Pool) : (r.step p).2.ledger = p.ledger := by
  cases r with
  | asked count =>
    simp only [Resize.step]
    split <;> rfl
  | retiring n => cases n <;> rfl
  | reclaiming n =>
    cases n with
    | zero => rfl
    | succ n =>
      simp only [Resize.step]
      split <;> rfl
  | spawning n =>
    cases n with
    | zero => rfl
    | succ n => exact ledger_spawn p
  | done => rfl

theorem crewed_step (r : Resize) (h : p.Crewed) : (r.step p).2.Crewed := by
  cases r with
  | asked count =>
    simp only [Resize.step]
    split <;> exact h
  | retiring n => cases n <;> exact crewed_of_hands h rfl rfl
  | reclaiming n =>
    cases n with
    | zero => exact h
    | succ n =>
      simp only [Resize.step]
      split <;> exact crewed_of_hands h rfl rfl
  | spawning n =>
    cases n with
    | zero => exact h
    | succ n => exact h.spawn
  | done => exact h

variable {h : Hand}

theorem ledger_claim (hc : p.Crewed) (hh : h ∈ p.hands) (hs : h.station.task? = none) {t : Task}
    {rest : List Task} (hb : p.backlog = t :: rest) :
    (({ p with backlog := rest } : Pool).moveTo h.id (.holding t)).ledger = p.ledger ∧
      (({ p with backlog := rest } : Pool).moveTo h.id (.holding t)).Crewed := by
  have hc' : ({ p with backlog := rest } : Pool).Crewed := crewed_of_hands hc rfl rfl
  refine ⟨?_, hc'.moveTo _ _⟩
  obtain ⟨c, r, hcl, hat, hclm, hatm, -, -⟩ := hc.parts hh
  have hcn : h.station.claimed? = none := by
    cases hst : h.station <;> simp_all [Station.task?, Station.claimed?]
  have hrn : h.station.running? = none := by
    cases hst : h.station <;> simp_all [Station.task?, Station.running?]
  have h1 := hclm (.holding t)
  have h2 := hatm (.holding t)
  rw [hcn, Option.toList_none, Multiset.coe_nil, Multiset.zero_add] at hcl
  rw [hrn, Option.toList_none, Multiset.coe_nil, Multiset.zero_add] at hat
  simp only [Station.claimed?, Station.running?, Option.toList_some, Option.toList_none,
    Multiset.coe_nil, Multiset.zero_add, Multiset.coe_singleton, Multiset.singleton_add] at h1 h2
  simp only [ledger, Ledger.mk.injEq]
  refine ⟨?_, ?_, rfl, rfl, rfl⟩
  · rw [hcl, hb, ← Multiset.cons_coe, Multiset.add_cons, Multiset.cons_add, ← Multiset.add_cons,
      ← h1]
    rfl
  · rw [hat, ← h2]
    rfl

open Ledger in
theorem follows_start (hc : p.Crewed) {t : Task} {i : Nat} (hh : ⟨i, .starting t⟩ ∈ p.hands) :
    Follows p.ledger (some (if p.discarding then .dropped t else .started t))
      (p.start i t).ledger ∧ (p.start i t).Crewed := by
  have hkeep : ∀ f : Pool → Pool, (∀ x : Pool, (f x).hands = x.hands ∧ (f x).nextHand = x.nextHand) →
      (f p).Crewed := fun f hf => crewed_of_hands hc (hf p).1 (hf p).2
  obtain ⟨c, r, hcl, hat, hclm, hatm, hclx, hatx⟩ := hc.parts hh
  simp only [Station.claimed?, Station.running?, Option.toList_some, Option.toList_none,
    Multiset.coe_nil, Multiset.zero_add, Multiset.coe_singleton, Multiset.singleton_add] at hcl hat
  have hw : p.ledger.waiting = t ::ₘ ((p.blocked : Multiset Task) + p.backlog + c) := by
    simp only [ledger]
    rw [hcl, Multiset.add_cons]
  rw [start]
  split
  · have hl : (((p.count .discard).setReply t.serial .dropped).exit i).ledger = { p.ledger with
        waiting := (p.blocked : Multiset Task) + p.backlog + c
        submissions := setReplyAt p.submissions t.serial .dropped
        counters := p.counters.discard } := by
      simp only [ledger, Ledger.mk.injEq]
      refine ⟨?_, ?_, rfl, rfl, rfl⟩
      · rw [← hclx]
        rfl
      · rw [hat, ← hatx]
        rfl
    rw [hl]
    exact ⟨.entry (.drop hw), (hkeep (fun x => (x.count .discard).setReply t.serial .dropped)
      fun _ => ⟨rfl, rfl⟩).exit i⟩
  · have hl : ((p.count .start).moveTo i (.running t)).ledger = { p.ledger with
        waiting := (p.blocked : Multiset Task) + p.backlog + c
        running := t ::ₘ p.ledger.running
        counters := p.counters.start } := by
      have h1 := hclm (.running t)
      have h2 := hatm (.running t)
      simp only [Station.claimed?, Station.running?, Option.toList_some, Option.toList_none,
        Multiset.coe_nil, Multiset.zero_add, Multiset.coe_singleton, Multiset.singleton_add] at h1 h2
      simp only [ledger, Ledger.mk.injEq]
      refine ⟨?_, ?_, rfl, rfl, rfl⟩
      · rw [← h1]
        rfl
      · rw [hat, ← h2]
        rfl
    rw [hl]
    exact ⟨.entry (.start hw), (hkeep (fun x => x.count .start) fun _ => ⟨rfl, rfl⟩).moveTo i _⟩

open Ledger in
theorem follows_finish (hc : p.Crewed) {t : Task} {i : Nat} (hh : ⟨i, .running t⟩ ∈ p.hands)
    (o : Outcome) :
    Follows p.ledger (some (.finished t o)) (p.finish i t o).ledger ∧ (p.finish i t o).Crewed := by
  obtain ⟨c, r, hcl, hat, hclm, hatm, -, -⟩ := hc.parts hh
  have h1 := hclm .arriving
  have h2 := hatm .arriving
  simp only [Station.claimed?, Station.running?, Option.toList_some, Option.toList_none,
    Multiset.coe_nil, Multiset.zero_add, Multiset.coe_singleton, Multiset.singleton_add]
    at hcl hat h1 h2
  have hl : (p.finish i t o).ledger = { p.ledger with
      running := r
      completions := p.completions ++ [⟨t, o⟩]
      submissions := setReplyAt p.submissions t.serial (.answered o)
      counters := p.counters.finish o.isSuccess } := by
    simp only [ledger, Ledger.mk.injEq]
    refine ⟨?_, ?_, rfl, rfl, rfl⟩
    · rw [hcl, ← h1]
      rfl
    · rw [← h2]
      rfl
  rw [hl]
  exact ⟨.entry (.finish hat o), crewed_of_hands (hc.moveTo i .arriving) rfl rfl⟩

open Ledger in
theorem follows_move? (hc : p.Crewed) (hh : h ∈ p.hands) {m : Move}
    (hm : p.move? h.id h.station m = some q) :
    Follows p.ledger (p.note? (.move h m)) q.ledger ∧ q.Crewed := by
  obtain ⟨i, s⟩ := h
  have hstay : ∀ s', q = p.moveTo i s' → s'.task? = s.task? → s'.running? = s.running? →
      p.note? (.move ⟨i, s⟩ m) = none →
      Follows p.ledger (p.note? (.move ⟨i, s⟩ m)) q.ledger ∧ q.Crewed := by
    intro s' hq ht hr he
    rw [hq, he, ledger_moveTo hc hh ht hr]
    exact ⟨.quiet, hc.moveTo i s'⟩
  have hgone : q.ledger = (p.exit i).ledger → q.Crewed → s.task? = none →
      p.note? (.move ⟨i, s⟩ m) = none →
      Follows p.ledger (p.note? (.move ⟨i, s⟩ m)) q.ledger ∧ q.Crewed := by
    intro hq hqc ht he
    rw [hq, he, ledger_exit hc hh ht]
    exact ⟨.quiet, hqc⟩
  cases moved_of_move? hm with
  | pass => exact hstay .looking rfl rfl rfl rfl
  | look => exact hstay .choosing rfl rfl rfl rfl
  | quit => exact hgone rfl (hc.exit i) rfl rfl
  | claim hb =>
    obtain ⟨hl, hq⟩ := ledger_claim hc hh rfl hb
    rw [hl]
    exact ⟨.quiet, hq⟩
  | retire => exact hgone rfl (crewed_of_hands (hc.exit i) rfl rfl) rfl rfl
  | leave => exact hgone rfl (hc.exit i) rfl rfl
  | passWith => exact hstay (.starting _) rfl rfl rfl rfl
  | start => exact follows_start hc hh
  | finish o => exact follows_finish hc hh o

theorem getElem?_of_isAccepted {serial : Nat} (ha : p.isAccepted serial) :
    ∃ u, p.submissions[serial]? = some ⟨u, p.reply serial⟩ ∧ p.reply serial ≠ .refused := by
  simp only [isAccepted, Bool.and_eq_true, decide_eq_true_eq] at ha
  obtain ⟨⟨hlt, -⟩, hr⟩ := ha
  refine ⟨p.submissions[serial].unit, ?_, hr⟩
  simp [reply, List.getElem?_eq_getElem hlt]

open Ledger in
theorem follows_fetch {serial : Nat} (ha : p.isAccepted serial) :
    Follows p.ledger (p.note? (.fetch serial)) (p.fetch serial).2.ledger := by
  obtain ⟨u, hu, hne⟩ := getElem?_of_isAccepted ha
  simp only [note?, fetch]
  cases hr : p.reply serial with
  | pending => simpa using .quiet
  | answered o =>
    rw [hr] at hu
    exact .entry (.tell (l := p.ledger) hu)
  | fetched o =>
    rw [hr] at hu
    exact .entry (.tellCancelled (l := p.ledger) hu (Or.inr ⟨o, rfl⟩))
  | dropped =>
    rw [hr] at hu
    exact .entry (.tellCancelled (l := p.ledger) hu (Or.inl rfl))
  | refused => exact absurd hr hne

theorem follows_perform? (hc : p.Crewed) (hd : p.Distinct) {a : Act} (h : p.perform? a = some q) :
    p.ledger.Follows (p.note? a) q.ledger ∧ q.Crewed := by
  cases a with
  | announce u =>
    cases h
    exact ⟨follows_announce p u, crewed_of_hands hc rfl rfl⟩
  | proceed serial =>
    obtain ⟨hl, hh, hn⟩ := ledger_admit? hd h
    rw [hl]
    exact ⟨.quiet, crewed_of_hands hc hh hn⟩
  | giveUp serial =>
    obtain ⟨hf, hh, hn⟩ := follows_giveUp? hd h
    exact ⟨hf, crewed_of_hands hc hh hn⟩
  | drop =>
    obtain ⟨hf, hh, hn⟩ := follows_drop? h
    exact ⟨hf, crewed_of_hands hc hh hn⟩
  | resize r =>
    cases h
    rw [ledger_step]
    exact ⟨.quiet, crewed_step r hc⟩
  | move hand m =>
    simp only [perform?] at h
    split at h
    · rename_i hh
      exact follows_move? hc hh h
    · cases h
  | fetch serial =>
    simp only [perform?] at h
    split at h
    · rename_i ha
      cases h
      refine ⟨follows_fetch ha, ?_⟩
      rw [fetch]
      split <;> exact crewed_of_hands hc rfl rfl
    · cases h
  | receive =>
    cases h
    rw [receive]
    split <;> exact ⟨.quiet, crewed_of_hands hc rfl rfl⟩
  | _ =>
    cases h
    exact ⟨.quiet, crewed_of_hands hc rfl rfl⟩

end Pool
end BatchJob.Worker
