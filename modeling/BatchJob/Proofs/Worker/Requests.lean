import BatchJob.Proofs.Worker.Act
import BatchJob.Worker.Schedule

/-! What is asked of a worker pool at one go, taken apart into single acts. -/
namespace BatchJob.Worker.Pool
open Work

/-- Acts of the `allowed` kinds lead from one pool to another and make the entries of the journal. -/
inductive Leads (allowed : Act → Prop) : Pool → List Entry → Pool → Prop
  | refl (p : Pool) : Leads allowed p [] p
  | tail {p q r : Pool} {journal : List Entry} {a : Act} (h : Leads allowed p journal q)
      (ha : allowed a) (hr : q.perform? a = some r) :
    Leads allowed p (journal ++ (q.note? a).toList) r

/-- The journal leads to the accounts of the pool. -/
structure Sound (p : Pool) (journal : List Entry) : Prop where
  crewed : p.Crewed
  run : Ledger.Run journal p.ledger

variable {p q r : Pool} {journal j k : List Entry} {allowed wider : Act → Prop}

theorem sound_create {s : Settings} (h : create s = .ok p) : p.Sound [] := by
  rw [create] at h
  split at h
  · cases h
  · cases h
    refine ⟨crewed_spawnMany _ (crewed_empty s), ?_⟩
    rw [ledger_spawnMany, ledger_empty]
    exact .blank

theorem idle_create {s : Settings} (h : create s = .ok q) :
    q.submissions = [] ∧ q.completions = [] ∧ q.blocked = [] ∧ q.received = 0 ∧
      q.target = s.workers := by
  obtain ⟨-, crew, -, rfl⟩ := create_eq h
  exact ⟨rfl, rfl, rfl, rfl, rfl⟩

theorem Sound.distinct (h : p.Sound journal) : p.Distinct := distinct_of_balanced h.run.balanced

theorem Sound.perform? (h : p.Sound journal) {a : Act} (ha : p.perform? a = some q) :
    q.Sound (journal ++ (p.note? a).toList) := by
  obtain ⟨hf, hc⟩ := follows_perform? h.crewed h.distinct ha
  exact ⟨hc, h.run.follows hf⟩

theorem Sound.leads (hp : p.Sound journal) (h : Leads allowed p k q) : q.Sound (journal ++ k) := by
  induction h with
  | refl => simpa using hp
  | tail _ _ hr ih =>
    rw [← List.append_assoc]
    exact ih.perform? hr

namespace Leads

theorem single {a : Act} (ha : allowed a) (h : p.perform? a = some q) :
    Leads allowed p (p.note? a).toList q := by
  simpa using (refl p).tail ha h

theorem trans (h : Leads allowed p j q) (h' : Leads allowed q k r) : Leads allowed p (j ++ k) r := by
  induction h' with
  | refl => simpa using h
  | tail _ ha hr ih =>
    rw [← List.append_assoc]
    exact ih.tail ha hr

theorem mono (h : Leads allowed p k q) (hw : ∀ a, allowed a → wider a) : Leads wider p k q := by
  induction h with
  | refl => exact refl _
  | tail _ ha hr ih => exact ih.tail (hw _ ha) hr

end Leads

theorem enter_of_full (h : p.hasRoom = false) (u : WorkUnit) : p.enter u = p.announce u := by
  have hfull : ({ p.count .submit with submissions := p.submissions ++ [⟨u, .pending⟩] } : Pool).hasRoom =
      false := h
  simp only [enter, place, hfull]
  rfl

theorem Sound.admit?_announce (h : p.Sound journal) (hr : p.hasRoom = true) (u : WorkUnit) :
    (p.announce u).admit? p.submissions.length = some (p.enter u) := by
  have hserial : ∀ t ∈ p.blocked, t.serial ≠ p.submissions.length := by
    intro t ht he
    have hp := h.run.balanced.pending_of_waiting (t := t) (by simp [ledger, ht])
    have hlt := (List.getElem?_eq_some_iff.mp hp).1
    simp only [ledger] at hlt
    omega
  have hplace : ({ p.count .submit with submissions := p.submissions ++ [⟨u, .pending⟩] } : Pool).hasRoom =
      true := hr
  have hroom : (p.announce u).hasRoom = true := hr
  have hfind : (p.announce u).blocked.find? (·.serial = p.submissions.length) =
      some ⟨p.submissions.length, u⟩ := by
    have hnone : p.blocked.find? (·.serial = p.submissions.length) = none := by
      simpa [List.find?_eq_none] using hserial
    simp [announce, List.find?_append, hnone]
  have hrest : ((p.announce u).unblock p.submissions.length).blocked = p.blocked := by
    simp only [unblock, announce, List.filter_append]
    rw [List.filter_eq_self.mpr fun t ht => decide_eq_true (hserial t ht)]
    simp
  simp only [admit?, hfind, hroom, if_true, enter, place, hplace]
  simp only [unblock] at hrest ⊢
  simp only [hrest]
  rfl

theorem leads_drain (n : Nat) (p : Pool) : ∃ k, Leads (· = .drop) p k (drain n p) := by
  induction n generalizing p with
  | zero => exact ⟨[], .refl p⟩
  | succ n ih =>
    simp only [drain]
    cases hd : p.drop? with
    | none => exact ⟨[], .refl p⟩
    | some q =>
      obtain ⟨k, hk⟩ := ih q
      have h1 : Leads (· = .drop) p (p.note? .drop).toList q := Leads.single rfl hd
      exact ⟨_, h1.trans hk⟩

/-- The acts of a pool that shuts down. -/
def Shuts (a : Act) : Prop := a = .shut ∨ a = .resume ∨ a = .disconnect

theorem leads_close (p : Pool) : Leads Shuts p [] p.close := by
  rw [close]
  split
  · exact .refl p
  · have h1 : Leads Shuts p [] { p with shut := true } := Leads.single (a := .shut) (Or.inl rfl) rfl
    have h2 := h1.tail (a := .resume) (Or.inr (Or.inl rfl)) rfl
    exact h2.tail (a := .disconnect) (Or.inr (Or.inr rfl)) rfl

theorem leads_closeNow (p : Pool) :
    ∃ k, Leads (fun a => a = .discard ∨ a = .drop ∨ Shuts a) p k p.closeNow := by
  have h1 : Leads (fun a => a = .discard ∨ a = .drop ∨ Shuts a) p [] p.discard :=
    Leads.single (a := .discard) (Or.inl rfl) rfl
  obtain ⟨k, h2⟩ := leads_drain p.backlog.length p.discard
  have h3 := leads_close (drain p.backlog.length p.discard)
  exact ⟨_, (h1.trans (h2.mono fun a ha => Or.inr (Or.inl ha))).trans
    (h3.mono fun a ha => Or.inr (Or.inr ha))⟩

def Resizes (a : Act) : Prop := ∃ r, a = .resize r

theorem leads_finish (n : Nat) (s : Resize) (p : Pool) : Leads Resizes p [] (s.finish n p) := by
  induction n generalizing s p with
  | zero => exact .refl p
  | succ n ih => exact (Leads.single (a := .resize s) ⟨s, rfl⟩ rfl).trans (ih _ _)

theorem leads_setWorkers (p : Pool) (count : Nat) : Leads Resizes p [] (p.setWorkers count).2 := by
  rw [setWorkers]
  split
  · exact .refl p
  · exact leads_finish _ _ p

theorem leads_giveUpFor (ts : List Task) (p : Pool) :
    ∃ k, Leads (fun a => ∃ serial, a = .giveUp serial) p k (p.giveUpFor ts) := by
  induction ts generalizing p with
  | nil => exact ⟨[], .refl p⟩
  | cons t rest ih =>
    simp only [giveUpFor]
    cases hg : p.giveUp? t.serial with
    | none => exact ih p
    | some q =>
      obtain ⟨k, hk⟩ := ih q
      exact ⟨_, (Leads.single (a := .giveUp t.serial) ⟨_, rfl⟩ hg).trans hk⟩

/-- Workers move and find their way out of the queue of those who wait. -/
def Proceeds (a : Act) : Prop := (∃ serial, a = .proceed serial) ∨ ∃ h m, a = .move h m

theorem leads_act? {outcome? : Task → Option Outcome} {h : Hand} (hh : h ∈ p.hands)
    (ha : p.act? outcome? h = some q) : ∃ k, Leads Proceeds p k q := by
  have hmove : ∀ m, p.move? h.id h.station m = some q → ∃ k, Leads Proceeds p k q := by
    intro m hm
    refine ⟨_, Leads.single (a := .move h m) (Or.inr ⟨h, m, rfl⟩) ?_⟩
    simp only [Pool.perform?, if_pos hh, hm]
  rw [act?] at ha
  cases hs : h.station with
  | choosing =>
    simp only [hs] at ha
    rw [← hs] at ha
    cases hc : p.move? h.id h.station .claim with
    | some q' =>
      rw [hc] at ha
      exact hmove .claim (hc.trans ha)
    | none =>
      rw [hc] at ha
      cases hr : p.move? h.id h.station .retire with
      | some q' =>
        rw [hr] at ha
        exact hmove .retire (hr.trans ha)
      | none =>
        rw [hr] at ha
        exact hmove .leave ha
  | running t =>
    simp only [hs] at ha
    rw [← hs] at ha
    obtain ⟨o, -, ho⟩ := Option.bind_eq_some_iff.mp ha
    exact hmove (.finish o) ho
  | arriving => exact hmove .pass (by simpa [hs] using ha)
  | looking => exact hmove .look (by simpa [hs] using ha)
  | holding t => exact hmove .pass (by simpa [hs] using ha)
  | starting t => exact hmove .start (by simpa [hs] using ha)

theorem leads_advance? {outcome? : Task → Option Outcome} (ha : p.advance? outcome? = some q) :
    ∃ k, Leads Proceeds p k q := by
  rw [advance?] at ha
  cases hb : p.blocked.head?.bind fun t => p.admit? t.serial with
  | some q' =>
    rw [hb] at ha
    obtain ⟨t, -, ht⟩ := Option.bind_eq_some_iff.mp hb
    cases ha
    exact ⟨_, Leads.single (a := .proceed t.serial) (Or.inl ⟨_, rfl⟩) ht⟩
  | none =>
    rw [hb] at ha
    obtain ⟨h, hh, hq⟩ := List.exists_of_findSome?_eq_some ha
    exact leads_act? hh hq

theorem leads_advanceFor (outcome? : Task → Option Outcome) (n : Nat) (p : Pool) :
    ∃ k, Leads Proceeds p k (p.advanceFor outcome? n) := by
  induction n generalizing p with
  | zero => exact ⟨[], .refl p⟩
  | succ n ih =>
    simp only [advanceFor]
    cases ha : p.advance? outcome? with
    | none => exact ⟨[], .refl p⟩
    | some q =>
      obtain ⟨j, hj⟩ := leads_advance? ha
      obtain ⟨k, hk⟩ := ih q
      exact ⟨_, hj.trans hk⟩

end BatchJob.Worker.Pool
