import BatchJob.Proofs.Worker.Ledger
import BatchJob.Worker.Round

/-! The workers of a pool, what they have in hand, and what one of them can do while the others stay as they
are. -/
namespace BatchJob.Worker.Pool
open Work

def claimed (p : Pool) : List Task := p.hands.filterMap (·.station.claimed?)

def atWork (p : Pool) : List Task := p.hands.filterMap (·.station.running?)

def ledger (p : Pool) : Ledger where
  waiting := (p.blocked : Multiset Task) + p.backlog + p.claimed
  running := p.atWork
  completions := p.completions
  submissions := p.submissions
  counters := p.counters

/-- No two workers have one number, and the next number is free. -/
structure Crewed (p : Pool) : Prop where
  nodup : (p.hands.map (·.id)).Nodup
  fresh : ∀ h ∈ p.hands, h.id < p.nextHand

variable {p q : Pool}

theorem crewed_empty (s : Settings) : (empty s).Crewed := ⟨List.nodup_nil, by simp [empty]⟩

theorem ledger_empty (s : Settings) : (empty s).ledger = .blank := rfl

theorem Crewed.spawn (h : p.Crewed) : p.spawn.Crewed := by
  have hnew : p.nextHand ∉ p.hands.map (·.id) := by
    intro hm
    obtain ⟨hand, hh, he⟩ := List.mem_map.mp hm
    exact absurd (h.fresh hand hh) (by omega)
  constructor
  · have : p.spawn.hands.map (·.id) = p.hands.map (·.id) ++ [p.nextHand] := by simp [Pool.spawn]
    rw [this, List.nodup_append]
    refine ⟨h.nodup, List.nodup_singleton _, fun i hi j hj => ?_⟩
    rw [List.mem_singleton.mp hj]
    rintro rfl
    exact hnew hi
  · intro hand hh
    simp only [Pool.spawn, List.mem_append, List.mem_singleton] at hh ⊢
    rcases hh with hh | rfl
    · exact Nat.lt_succ_of_lt (h.fresh hand hh)
    · exact Nat.lt_succ_self _

theorem ledger_spawn (p : Pool) : p.spawn.ledger = p.ledger := by
  simp [ledger, Pool.spawn, claimed, atWork, Station.claimed?, Station.running?]

theorem crewed_spawnMany (n : Nat) (h : p.Crewed) : (spawnMany n p).Crewed := by
  induction n generalizing p with
  | zero => exact h
  | succ n ih => exact ih h.spawn

theorem ledger_spawnMany (n : Nat) (p : Pool) : (spawnMany n p).ledger = p.ledger := by
  induction n generalizing p with
  | zero => rfl
  | succ n ih => rw [spawnMany, ih, ledger_spawn]

theorem spawnMany_eq (n : Nat) (p : Pool) : ∃ crew : List Hand, crew.length = n ∧
    spawnMany n p = { p with
      hands := p.hands ++ crew
      nextHand := p.nextHand + n
      target := p.target + n } := by
  induction n generalizing p with
  | zero => exact ⟨[], rfl, by simp [spawnMany]⟩
  | succ n ih =>
    obtain ⟨crew, hlen, heq⟩ := ih p.spawn
    refine ⟨⟨p.nextHand, .arriving⟩ :: crew, by simp [hlen], ?_⟩
    rw [spawnMany, heq]
    simp only [Pool.spawn, List.append_assoc, List.cons_append, List.nil_append, mk.injEq, and_true, true_and]
    omega

theorem create_eq {s : Settings} (h : create s = .ok q) : s.problem? = none ∧
    ∃ crew : List Hand, crew.length = s.workers ∧
      q = { empty s with hands := crew, nextHand := s.workers, target := s.workers } := by
  rw [create] at h
  split at h
  · cases h
  · rename_i hproblem
    cases h
    obtain ⟨crew, hlen, heq⟩ := spawnMany_eq s.workers (empty s)
    refine ⟨hproblem, crew, hlen, heq.trans ?_⟩
    simp [empty]

theorem crewed_of_hands (h : p.Crewed) (hh : q.hands = p.hands) (hn : q.nextHand = p.nextHand) :
    q.Crewed := ⟨hh ▸ h.nodup, fun hand hm => hn ▸ h.fresh hand (hh ▸ hm)⟩

theorem exists_split {α : Type} {f : α → Nat} {xs : List α} (hn : (xs.map f).Nodup) {x : α}
    (hx : x ∈ xs) : ∃ before after, xs = before ++ x :: after ∧ (∀ y ∈ before, f y ≠ f x) ∧
      (∀ y ∈ after, f y ≠ f x) ∧ xs.filter (f · ≠ f x) = before ++ after := by
  obtain ⟨before, after, he⟩ := List.append_of_mem hx
  simp only [he, List.map_append, List.map_cons, List.nodup_append, List.nodup_cons,
    List.mem_cons, List.mem_map] at hn
  obtain ⟨-, ⟨hafter, -⟩, hbefore⟩ := hn
  have hb : ∀ y ∈ before, f y ≠ f x := fun y hy => hbefore (f y) ⟨y, hy, rfl⟩ (f x) (Or.inl rfl)
  have ha : ∀ y ∈ after, f y ≠ f x := fun y hy hi => hafter ⟨y, hy, hi⟩
  have hkeep : ∀ ys : List α, (∀ y ∈ ys, f y ≠ f x) → ys.filter (f · ≠ f x) = ys := fun ys hys =>
    List.filter_eq_self.mpr fun y hy => decide_eq_true (hys y hy)
  refine ⟨before, after, he, hb, ha, ?_⟩
  rw [he, List.filter_append, List.filter_cons, hkeep before hb, hkeep after ha]
  simp

theorem Crewed.split (hp : p.Crewed) {h : Hand} (hh : h ∈ p.hands) :
    ∃ before after, p.hands = before ++ h :: after ∧
      (∀ s, (p.moveTo h.id s).hands = before ++ ⟨h.id, s⟩ :: after) ∧
      (p.exit h.id).hands = before ++ after := by
  obtain ⟨before, after, he, hb, ha, hrest⟩ := exists_split hp.nodup hh
  refine ⟨before, after, he, fun s => ?_, hrest⟩
  have hkeep : ∀ xs : List Hand, (∀ x ∈ xs, x.id ≠ h.id) →
      xs.map (fun x => if x.id = h.id then ⟨h.id, s⟩ else x) = xs := by
    intro xs hxs
    conv_rhs => rw [← List.map_id xs]
    exact List.map_congr_left fun x hx => if_neg (hxs x hx)
  simp only [moveTo, he, List.map_append, List.map_cons, if_true, hkeep before hb, hkeep after ha]

/-- Whatever is read off the stations, the other workers keep their part of it. -/
theorem Crewed.part (hp : p.Crewed) {h : Hand} (hh : h ∈ p.hands) (f : Station → Option Task) :
    ∃ r : Multiset Task,
      (p.hands.filterMap (fun x => f x.station) : Multiset Task) = ((f h.station).toList : Multiset Task) + r ∧
      (∀ s, ((p.moveTo h.id s).hands.filterMap (fun x => f x.station) : Multiset Task) =
        ((f s).toList : Multiset Task) + r) ∧
      ((p.exit h.id).hands.filterMap (fun x => f x.station) : Multiset Task) = r := by
  obtain ⟨before, after, he, hm, hx⟩ := hp.split hh
  have hmid : ∀ x : Hand, ((before ++ x :: after).filterMap fun y => f y.station : Multiset Task) =
      ((f x.station).toList : Multiset Task) +
        ((before ++ after).filterMap fun y => f y.station : List Task) := by
    intro x
    rw [Multiset.coe_add, Multiset.coe_eq_coe, List.filterMap_append, List.filterMap_append]
    cases hf : f x.station with
    | none => simp [hf]
    | some t => simp [hf]
  refine ⟨((before ++ after).filterMap fun y => f y.station : List Task), ?_, fun s => ?_, ?_⟩
  · rw [he]
    exact hmid h
  · rw [hm s]
    exact hmid ⟨h.id, s⟩
  · rw [hx]

theorem Crewed.parts (hp : p.Crewed) {h : Hand} (hh : h ∈ p.hands) :
    ∃ c r : Multiset Task,
      p.claimed = (h.station.claimed?.toList : Multiset Task) + c ∧
      p.atWork = (h.station.running?.toList : Multiset Task) + r ∧
      (∀ s, (p.moveTo h.id s).claimed = (s.claimed?.toList : Multiset Task) + c) ∧
      (∀ s, (p.moveTo h.id s).atWork = (s.running?.toList : Multiset Task) + r) ∧
      (p.exit h.id).claimed = c ∧ (p.exit h.id).atWork = r := by
  obtain ⟨c, hcl, hclm, hclx⟩ := hp.part hh Station.claimed?
  obtain ⟨r, hat, hatm, hatx⟩ := hp.part hh Station.running?
  exact ⟨c, r, hcl, hat, hclm, hatm, hclx, hatx⟩

theorem Crewed.moveTo (hp : p.Crewed) (i : Nat) (s : Station) : (p.moveTo i s).Crewed := by
  have hids : (p.moveTo i s).hands.map (·.id) = p.hands.map (·.id) := by
    simp only [Pool.moveTo, List.map_map]
    refine List.map_congr_left fun h _ => ?_
    by_cases hi : h.id = i <;> simp [hi]
  refine ⟨hids ▸ hp.nodup, fun h hh => ?_⟩
  have hm : h.id ∈ p.hands.map (·.id) := hids ▸ List.mem_map_of_mem hh
  obtain ⟨h', hh', he⟩ := List.mem_map.mp hm
  exact he ▸ hp.fresh h' hh'

theorem Crewed.exit (hp : p.Crewed) (i : Nat) : (p.exit i).Crewed := by
  refine ⟨hp.nodup.sublist (List.filter_sublist.map _), fun h hh => ?_⟩
  exact hp.fresh h (List.mem_of_mem_filter hh)

variable {h : Hand}

theorem ledger_moveTo (hc : p.Crewed) (hh : h ∈ p.hands) {s : Station}
    (hs : s.task? = h.station.task?) (hr : s.running? = h.station.running?) :
    (p.moveTo h.id s).ledger = p.ledger := by
  obtain ⟨c, r, hcl, hat, hclm, hatm, -, -⟩ := hc.parts hh
  have hcs : s.claimed? = h.station.claimed? := by
    cases s <;> cases hst : h.station <;> simp_all [Station.task?, Station.running?, Station.claimed?]
  simp only [ledger, Ledger.mk.injEq]
  refine ⟨?_, ?_, rfl, rfl, rfl⟩
  · rw [hclm, hcl, hcs]
    rfl
  · rw [hatm, hat, hr]

theorem ledger_exit (hc : p.Crewed) (hh : h ∈ p.hands) (hs : h.station.task? = none) :
    (p.exit h.id).ledger = p.ledger := by
  obtain ⟨c, r, hcl, hat, -, -, hclx, hatx⟩ := hc.parts hh
  have hcn : h.station.claimed? = none := by
    cases hst : h.station <;> simp_all [Station.task?, Station.claimed?]
  have hrn : h.station.running? = none := by
    cases hst : h.station <;> simp_all [Station.task?, Station.running?]
  simp only [ledger, Ledger.mk.injEq]
  refine ⟨?_, ?_, rfl, rfl, rfl⟩
  · rw [hclx, hcl, hcn]
    simp [Pool.exit]
  · rw [hatx, hat, hrn]
    simp

/-- What becomes of the pool when the worker `i` makes a move at a station. -/
inductive Moved (p : Pool) (i : Nat) : Station → Move → Pool → Prop
  | pass (hg : p.gate.closed = false) : Moved p i .arriving .pass (p.moveTo i .looking)
  | look (hd : p.discarding = false) : Moved p i .looking .look (p.moveTo i .choosing)
  | quit (hd : p.discarding = true) : Moved p i .looking .look (p.exit i)
  | claim {t : Task} {rest : List Task} (hb : p.backlog = t :: rest) :
    Moved p i .choosing .claim (({ p with backlog := rest } : Pool).moveTo i (.holding t))
  | retire (ht : p.tokens ≠ 0) :
    Moved p i .choosing .retire (({ p with tokens := p.tokens - 1 } : Pool).exit i)
  | leave (he : p.isExhausted = true) : Moved p i .choosing .leave (p.exit i)
  | passWith {t : Task} (hg : p.gate.closed = false) :
    Moved p i (.holding t) .pass (p.moveTo i (.starting t))
  | start {t : Task} : Moved p i (.starting t) .start (p.start i t)
  | finish {t : Task} (o : Outcome) : Moved p i (.running t) (.finish o) (p.finish i t o)

theorem moved_of_move? {i : Nat} {s : Station} {m : Move} (hm : p.move? i s m = some q) :
    Moved p i s m q := by
  unfold move? at hm
  split at hm
  · split at hm
    · cases hm
    · rename_i hg
      cases hm
      exact .pass (by simpa using hg)
  · cases hm
    split
    · rename_i hd
      exact .quit hd
    · rename_i hd
      exact .look (by simpa using hd)
  · rw [claim?] at hm
    split at hm
    · cases hm
    · rename_i t rest hb
      cases hm
      exact .claim hb
  · rw [retire?] at hm
    split at hm
    · cases hm
    · rename_i ht
      cases hm
      exact .retire ht
  · split at hm
    · rename_i he
      cases hm
      exact .leave he
    · cases hm
  · split at hm
    · cases hm
    · rename_i hg
      cases hm
      exact .passWith (by simpa using hg)
  · cases hm
    exact .start
  · cases hm
    exact .finish _
  · cases hm

end BatchJob.Worker.Pool
