import BatchJob.Proofs.Worker.Frame

/-! A pool with one worker. Its tasks stand in one line, from those that completed to the one that waits for
room in the backlog, and in this line they are in the order of their submission. -/
namespace BatchJob.Worker.Pool
open Work

/-- The tasks that workers have in hand, started or not. -/
def inHand (p : Pool) : List Task := p.hands.filterMap (·.station.task?)

/-- What was started, in the order in which one worker alone does it. -/
def started (p : Pool) : List Task := p.completions.map (·.task) ++ p.atWork

def line (p : Pool) : List Task :=
  p.completions.map (·.task) ++ p.inHand ++ p.backlog ++ p.blocked

/-- There is at most one worker, at most one waits for room, and nobody overtakes. -/
structure InLine (p : Pool) : Prop where
  hands : p.hands.length ≤ 1
  blocked : p.blocked.length ≤ 1
  ascending : (p.line.map (·.serial)).Pairwise (· < ·)

variable {p q : Pool} {journal : List Entry} {a : Act}

theorem started_sublist (p : Pool) : p.started.Sublist p.line := by
  have hw : p.atWork.Sublist p.inHand := by
    unfold atWork inHand
    induction p.hands with
    | nil => exact List.Sublist.refl _
    | cons h hands ih =>
      cases hs : h.station with
      | running t => simpa [hs, Station.running?, Station.task?] using ih
      | holding t => simpa [hs, Station.running?, Station.task?] using ih.cons t
      | starting t => simpa [hs, Station.running?, Station.task?] using ih.cons t
      | _ => simpa [hs, Station.running?, Station.task?] using ih
  rw [line, started, List.append_assoc, List.append_assoc]
  exact List.Sublist.append (List.Sublist.refl _)
    (hw.trans (List.sublist_append_left _ _))

theorem InLine.of_sublist (h : p.InLine) (hh : q.hands.length ≤ p.hands.length)
    (hb : q.blocked.length ≤ p.blocked.length) (hl : q.line.Sublist p.line) : q.InLine :=
  ⟨hh.trans h.hands, hb.trans h.blocked, h.ascending.sublist (hl.map _)⟩

theorem InLine.of_eq (h : p.InLine) (hh : q.hands = p.hands) (hb : q.blocked = p.blocked)
    (hl : q.backlog = p.backlog) (hc : q.completions = p.completions) : q.InLine :=
  h.of_sublist (by rw [hh]) (by rw [hb]) (by rw [line, line, inHand, inHand, hh, hb, hl, hc])

theorem inLine_create {s : Settings} (h : create s = .ok p) (hs : s.workers = 1) : p.InLine := by
  rw [create] at h
  split at h
  · cases h
  · cases h
    rw [hs]
    exact ⟨by simp [spawnMany, spawn, empty], by simp [spawnMany, spawn, empty],
      by simp [line, inHand, spawnMany, spawn, empty, Station.task?]⟩

theorem mem_inHand {t : Task} (ht : t ∈ p.inHand) : t ∈ p.claimed ∨ t ∈ p.atWork := by
  obtain ⟨hand, hm, hs⟩ := List.mem_filterMap.mp ht
  cases hst : hand.station with
  | running t' =>
    have hr : hand.station.running? = some t := by simpa [hst, Station.task?, Station.running?] using hs
    exact Or.inr (List.mem_filterMap.mpr ⟨hand, hm, hr⟩)
  | holding t' =>
    have hc : hand.station.claimed? = some t := by simpa [hst, Station.task?, Station.claimed?] using hs
    exact Or.inl (List.mem_filterMap.mpr ⟨hand, hm, hc⟩)
  | starting t' =>
    have hc : hand.station.claimed? = some t := by simpa [hst, Station.task?, Station.claimed?] using hs
    exact Or.inl (List.mem_filterMap.mpr ⟨hand, hm, hc⟩)
  | _ => simp [hst, Station.task?] at hs

theorem Sound.serial_lt (h : p.Sound journal) {t : Task} (ht : t ∈ p.line) :
    t.serial < p.submissions.length := by
  have hbal := h.run.balanced
  have hwaiting : t ∈ p.ledger.waiting → t.serial < p.submissions.length := fun hw =>
    (List.getElem?_eq_some_iff.mp (hbal.pending_of_waiting hw)).1
  have hrunning : t ∈ p.ledger.running → t.serial < p.submissions.length := fun hr =>
    (List.getElem?_eq_some_iff.mp (hbal.pending_of_running hr)).1
  simp only [line, List.mem_append, List.mem_map] at ht
  rcases ht with ((⟨c, hc, rfl⟩ | hh) | hl) | hb
  · rcases (hbal.completed.mem_iff c).mp hc with hc | hc <;>
      exact (List.getElem?_eq_some_iff.mp hc).1
  · rcases mem_inHand hh with hc | hr
    · exact hwaiting (by simp [ledger, hc])
    · exact hrunning (Multiset.mem_coe.mpr hr)
  · exact hwaiting (by simp [ledger, hl])
  · exact hwaiting (by simp [ledger, hb])

theorem InLine.announce (h : p.InLine) (hs : p.Sound journal) (hb : p.blocked = [])
    (u : WorkUnit) : (p.announce u).InLine := by
  refine ⟨h.hands, by simp [Pool.announce, hb], ?_⟩
  have hline : (p.announce u).line = p.line ++ [⟨p.submissions.length, u⟩] := by
    simp [line, inHand, Pool.announce, count, hb]
  rw [hline, List.map_append, List.pairwise_append]
  refine ⟨h.ascending, List.pairwise_singleton _ _, fun i hi j hj => ?_⟩
  obtain ⟨t, ht, rfl⟩ := List.mem_map.mp hi
  simp only [List.map_cons, List.map_nil, List.mem_singleton] at hj
  rw [hj]
  exact hs.serial_lt ht

theorem InLine.admit? (h : p.InLine) {serial : Nat} (hq : p.admit? serial = some q) : q.InLine := by
  rw [Pool.admit?] at hq
  split at hq
  · cases hq
  · rename_i t ht
    split at hq
    · cases hq
      have hm := List.mem_of_find?_eq_some ht
      have hs : t.serial = serial := by simpa using List.find?_some ht
      have hone : p.blocked = [t] := by
        have hlen := h.blocked
        cases hb : p.blocked with
        | nil => simp [hb] at hm
        | cons t' rest =>
          rw [hb] at hlen hm
          have hr : rest = [] := List.length_eq_zero_iff.mp (by simpa using hlen)
          simp_all
      have hnone : (p.unblock serial).blocked = [] := by simp [unblock, hone, hs]
      refine h.of_sublist le_rfl (by simp [hnone]) ?_
      simp only [line, inHand, hnone]
      simp [unblock, hone]
    · cases hq

theorem InLine.giveUp? (h : p.InLine) {serial : Nat} (hq : p.giveUp? serial = some q) :
    q.InLine := by
  rw [Pool.giveUp?] at hq
  split at hq
  · cases hq
    refine h.of_sublist le_rfl (List.length_filter_le _ _) ?_
    exact List.Sublist.append (List.Sublist.refl _) List.filter_sublist
  · cases hq

theorem InLine.drop? (h : p.InLine) (hq : p.drop? = some q) : q.InLine := by
  rw [Pool.drop?] at hq
  split at hq
  · cases hq
  · rename_i t rest hb
    cases hq
    refine h.of_sublist le_rfl le_rfl ?_
    refine List.Sublist.append (List.Sublist.append (List.Sublist.refl _) ?_) (List.Sublist.refl _)
    rw [hb]
    exact List.sublist_cons_self t rest

theorem InLine.move? (h : p.InLine) {hand : Hand} (hh : hand ∈ p.hands) {m : Move}
    (hq : p.move? hand.id hand.station m = some q) : q.InLine := by
  obtain ⟨i, s⟩ := hand
  have hone : p.hands = [⟨i, s⟩] := by
    have hlen := h.hands
    cases hp : p.hands with
    | nil => simp [hp] at hh
    | cons h' rest =>
      rw [hp] at hlen hh
      have hr : rest = [] := List.length_eq_zero_iff.mp (by simpa using hlen)
      simp_all
  have hmoved : ∀ s', (p.moveTo i s').hands = [⟨i, s'⟩] := fun s' => by simp [Pool.moveTo, hone]
  have hgone : (p.exit i).hands = [] := by simp [Pool.exit, hone]
  have hstay : ∀ s', s'.task? = s.task? → (p.moveTo i s').InLine := fun s' hs =>
    h.of_sublist (by simp [hmoved, hone]) le_rfl (by
      have : (p.moveTo i s').inHand = p.inHand := by
        rw [inHand, inHand, hmoved, hone, List.filterMap_cons, List.filterMap_cons, hs]
      rw [line, line, this]
      exact List.Sublist.refl _)
  have hleave : (p.exit i).InLine :=
    h.of_sublist (by simp [hgone]) le_rfl (by
      simp only [line, inHand, hgone, List.filterMap_nil, List.append_nil]
      exact List.Sublist.append (List.Sublist.append (List.sublist_append_left _ _)
        (List.Sublist.refl _)) (List.Sublist.refl _))
  cases moved_of_move? hq with
  | pass => exact hstay .looking rfl
  | look => exact hstay .choosing rfl
  | quit => exact hleave
  | @claim t rest hb =>
    refine h.of_sublist (by simp [Pool.moveTo]) le_rfl ?_
    simp [line, inHand, Pool.moveTo, hone, hb, Station.task?]
  | retire => exact hleave.of_eq rfl rfl rfl rfl
  | leave => exact hleave
  | passWith => exact hstay (.starting _) rfl
  | @start t =>
    rw [start]
    split
    · exact hleave.of_eq rfl rfl rfl rfl
    · exact (hstay (.running t) rfl).of_eq rfl rfl rfl rfl
  | finish o =>
    refine h.of_sublist (by simp [finish, Pool.moveTo, count, setReply]) le_rfl ?_
    simp [line, inHand, finish, Pool.moveTo, count, setReply, hone, Station.task?]

/-- Nobody overtakes anybody, as long as no workers are added and one waits for room at a time. -/
theorem InLine.perform? (h : p.InLine) (hs : p.Sound journal) (hr : ∀ r, a ≠ .resize r)
    (hb : ∀ u, a = .announce u → p.blocked = []) (hq : p.perform? a = some q) : q.InLine := by
  cases a with
  | announce u =>
    cases hq
    exact h.announce hs (hb u rfl) u
  | proceed serial => exact h.admit? hq
  | giveUp serial => exact h.giveUp? hq
  | drop => exact h.drop? hq
  | resize r => exact absurd rfl (hr r)
  | move hand m =>
    simp only [Pool.perform?] at hq
    split at hq
    · rename_i hh
      exact h.move? hh hq
    · cases hq
  | fetch serial =>
    simp only [Pool.perform?] at hq
    split at hq
    · cases hq
      rw [fetch]
      split <;> exact h.of_eq rfl rfl rfl rfl
    · cases hq
  | receive =>
    cases hq
    rw [receive]
    split <;> exact h.of_eq rfl rfl rfl rfl
  | _ =>
    cases hq
    exact h.of_eq rfl rfl rfl rfl

theorem eq_of_coe_eq {xs ys : List Task} (h : (xs : Multiset Task) = ys) (hx : xs.length ≤ 1) :
    ys = xs := by
  have hp : xs.Perm ys := Multiset.coe_eq_coe.mp h
  match xs, hx with
  | [], _ => exact List.nil_perm.mp hp
  | [t], _ => exact (List.singleton_perm.mp hp).symm

theorem started_of_follows {o : Option Entry} (h : Ledger.Follows p.ledger o q.ledger)
    (hp : p.atWork.length ≤ 1) (hq : q.atWork.length ≤ 1) :
    q.started = p.started ++ starts o.toList := by
  -- The ledger has the tasks at work as a multiset; of one task at most this is a list.
  have hwork : ∀ t : Task, (t ::ₘ (p.atWork : Multiset Task)) = q.atWork →
      p.atWork = [] ∧ q.atWork = [t] := by
    intro t ht
    rw [Multiset.cons_coe] at ht
    have hlen := (Multiset.coe_eq_coe.mp ht).length_eq
    have hnil : p.atWork = [] := by
      apply List.length_eq_zero_iff.mp
      rw [List.length_cons] at hlen
      omega
    rw [hnil] at ht
    exact ⟨hnil, eq_of_coe_eq ht le_rfl⟩
  generalize hl : q.ledger = l at h
  have hrunning : (q.atWork : Multiset Task) = l.running := hl ▸ rfl
  have hdone : q.completions = l.completions := hl ▸ rfl
  cases h with
  | quiet =>
    have hsame : q.atWork = p.atWork := eq_of_coe_eq hrunning.symm hp
    simp [started, hdone, hsame, ledger, starts]
  | entry hs =>
    cases hs with
    | @start t _ _ =>
      obtain ⟨hnone, hone⟩ := hwork t hrunning.symm
      simp [started, hdone, hnone, hone, ledger, starts]
    | @finish t rest hr o =>
      have hrun : (p.atWork : Multiset Task) = t ::ₘ (q.atWork : Multiset Task) := by
        rw [hrunning]
        exact hr
      have hlen := congrArg Multiset.card hrun
      rw [Multiset.card_cons, Multiset.coe_card, Multiset.coe_card] at hlen
      have hnone : q.atWork = [] := by
        apply List.length_eq_zero_iff.mp
        omega
      rw [hnone] at hrun
      have hone : p.atWork = [t] := eq_of_coe_eq hrun.symm (le_of_eq (List.length_singleton))
      simp [started, hdone, hnone, hone, ledger, starts]
    | _ =>
      have hsame : q.atWork = p.atWork := eq_of_coe_eq hrunning.symm hp
      simp [started, hdone, hsame, ledger, starts]

theorem InLine.length_atWork (h : p.InLine) : p.atWork.length ≤ 1 :=
  (List.length_filterMap_le _ _).trans h.hands

/-- One worker alone starts the tasks in the order in which they completed, the one at work last. -/
theorem InLine.starts_perform? (h : p.InLine) (hs : p.Sound journal) (ho : starts journal = p.started)
    (hq : p.perform? a = some q) (hl : q.InLine) :
    starts (journal ++ (p.note? a).toList) = q.started := by
  obtain ⟨hf, -⟩ := follows_perform? hs.crewed hs.distinct hq
  rw [starts_append, ho, started_of_follows hf h.length_atWork hl.length_atWork]

/-- A sound pool; under the condition `solo` it has one worker alone, who keeps the order. -/
structure Orderly (solo : Prop) (p : Pool) (journal : List Entry) : Prop where
  sound : p.Sound journal
  inLine : solo → p.InLine
  started : solo → starts journal = p.started

variable {solo : Prop}

theorem orderly_create {s : Settings} (h : create s = .ok p) (hs : solo → s.workers = 1) :
    p.Orderly solo [] := by
  refine ⟨sound_create h, fun hsolo => inLine_create h (hs hsolo), fun hsolo => ?_⟩
  have hone := hs hsolo
  rw [create] at h
  split at h
  · cases h
  · cases h
    rw [hone]
    rfl

theorem Orderly.perform? (h : p.Orderly solo journal) (hr : solo → ∀ r, a ≠ .resize r)
    (hb : ∀ u, a = .announce u → p.blocked = []) (hq : p.perform? a = some q) :
    q.Orderly solo (journal ++ (p.note? a).toList) := by
  have hline : solo → q.InLine := fun hs => (h.inLine hs).perform? h.sound (hr hs) hb hq
  exact ⟨h.sound.perform? hq, hline, fun hs =>
    (h.inLine hs).starts_perform? h.sound (h.started hs) hq (hline hs)⟩

theorem Orderly.leads {k : List Entry} {allowed : Act → Prop} (h : p.Orderly solo journal)
    (hr : solo → ∀ r, ¬ allowed (.resize r)) (hu : ∀ u, ¬ allowed (.announce u))
    (hq : Leads allowed p k q) : q.Orderly solo (journal ++ k) := by
  induction hq with
  | refl => simpa using h
  | tail hpq ha hr' ih =>
    rw [← List.append_assoc]
    exact ih.perform? (fun hs r he => hr hs r (he ▸ ha)) (fun u he => absurd (he ▸ ha) (hu u)) hr'

theorem Orderly.enter (h : p.Orderly solo journal) (hb : p.blocked = []) (u : WorkUnit) :
    (p.enter u).Orderly solo (journal ++ [.submitted u]) := by
  have hann : (p.announce u).Orderly solo (journal ++ [.submitted u]) :=
    h.perform? (a := .announce u) (fun _ _ he => by cases he) (fun _ _ => hb) rfl
  cases hroom : p.hasRoom with
  | false => exact enter_of_full hroom u ▸ hann
  | true =>
    have hadmit := hann.perform? (a := .proceed p.submissions.length) (fun _ _ he => by cases he)
      (fun _ he => by cases he) (h.sound.admit?_announce hroom u)
    simpa [note?] using hadmit

theorem Orderly.receive (h : p.Orderly solo journal) : p.receive.2.Orderly solo journal := by
  have hrec := h.perform? (a := .receive) (fun _ _ he => by cases he) (fun _ he => by cases he) rfl
  simpa [note?] using hrec

theorem Orderly.receiveMore (h : p.Orderly solo journal) (n : Nat) :
    ({ p with received := n } : Pool).Orderly solo journal where
  sound := ⟨⟨h.sound.crewed.nodup, h.sound.crewed.fresh⟩, h.sound.run⟩
  inLine hs := (h.inLine hs).of_eq rfl rfl rfl rfl
  started hs := h.started hs

theorem Orderly.giveUp? (h : p.Orderly solo journal) {serial : Nat} (hq : p.giveUp? serial = some q) :
    ∃ k, q.Orderly solo (journal ++ k) :=
  ⟨_, h.perform? (a := .giveUp serial) (fun _ _ he => by cases he) (fun _ he => by cases he) hq⟩

end BatchJob.Worker.Pool
