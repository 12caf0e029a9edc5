import BatchJob.Proofs.Worker.Frame
import BatchJob.Proofs.Worker.Shift
import Mathlib.Algebra.GroupWithZero.Nat

/-! What workers do by themselves, and callers who are already submitting. They never go on for ever: each
stride takes some of the effort that is left. Where the gate is open and nothing more can be brought, they do not
stop before the last worker has left. -/
namespace BatchJob.Worker
open Work

/-- Workers move on, and callers who were let in find their way to the backlog or back. -/
def Deed.isStride : Deed → Bool
  | .connect _ | .turnBack _ | .announce _ => true
  | .act (.proceed _) | .act (.giveUp _) | .act (.move _ _) => true
  | _ => false

/-- How many strides a worker is away from leaving if it takes no other task. -/
def Station.effort : Station → Nat
  | .arriving => 3
  | .looking => 2
  | .choosing => 1
  | .holding _ => 6
  | .starting _ => 5
  | .running _ => 4

namespace Pool

variable {p q : Pool} {h : Hand}

/-- The strides left to the workers, with those it takes to execute what is queued. -/
def effort (p : Pool) : Nat :=
  7 * p.blocked.length + 6 * p.backlog.length + (p.hands.map (·.station.effort)).sum

theorem effort_moveTo (hc : p.Crewed) (hh : h ∈ p.hands) (s : Station) :
    (p.moveTo h.id s).effort + h.station.effort = p.effort + s.effort := by
  obtain ⟨before, after, he, hm, -⟩ := hc.split hh
  simp only [effort, hm, he, List.map_append, List.map_cons, List.sum_append, List.sum_cons]
  simp only [moveTo]
  omega

theorem effort_exit (hc : p.Crewed) (hh : h ∈ p.hands) :
    (p.exit h.id).effort + h.station.effort = p.effort := by
  obtain ⟨before, after, he, -, hx⟩ := hc.split hh
  simp only [effort, hx, he, List.map_append, List.map_cons, List.sum_append, List.sum_cons]
  simp only [exit]
  omega

theorem effort_of_eq (hb : q.blocked = p.blocked) (hl : q.backlog = p.backlog) (hh : q.hands = p.hands) :
    q.effort = p.effort := by rw [effort, effort, hb, hl, hh]

theorem effort_move? (hc : p.Crewed) (hh : h ∈ p.hands) {m : Move}
    (hq : p.move? h.id h.station m = some q) : q.effort < p.effort := by
  obtain ⟨i, s⟩ := h
  have hstay : ∀ s', (p.moveTo i s').effort + s.effort = p.effort + s'.effort := effort_moveTo hc hh
  have hgone : (p.exit i).effort + s.effort = p.effort := effort_exit hc hh
  have hmoved : p.Moved i s m q := moved_of_move? hq
  cases hmoved with
  | pass =>
    have := hstay .looking
    simp only [Station.effort] at this
    omega
  | look =>
    have := hstay .choosing
    simp only [Station.effort] at this
    omega
  | quit =>
    simp only [Station.effort] at hgone
    omega
  | @claim t rest hb =>
    have hless : ({ p with backlog := rest } : Pool).effort + 6 = p.effort := by
      simp only [effort, hb, List.length_cons]
      omega
    have hmoved : (({ p with backlog := rest } : Pool).moveTo i (.holding t)).effort + 1 =
        ({ p with backlog := rest } : Pool).effort + 6 :=
      effort_moveTo (p := { p with backlog := rest }) (crewed_of_hands hc rfl rfl) hh (.holding t)
    omega
  | retire =>
    have : (({ p with tokens := p.tokens - 1 } : Pool).exit i).effort = (p.exit i).effort :=
      effort_of_eq rfl rfl rfl
    simp only [Station.effort] at hgone
    omega
  | leave =>
    simp only [Station.effort] at hgone
    omega
  | @passWith t =>
    have := hstay (.starting t)
    simp only [Station.effort] at this
    omega
  | @start t =>
    rw [start]
    split
    · have : (((p.count .discard).setReply t.serial .dropped).exit i).effort = (p.exit i).effort :=
        effort_of_eq rfl rfl rfl
      simp only [Station.effort] at hgone
      omega
    · have hcount : ((p.count .start).moveTo i (.running t)).effort = (p.moveTo i (.running t)).effort :=
        effort_of_eq rfl rfl rfl
      have := hstay (.running t)
      simp only [Station.effort] at this
      omega
  | @finish t o =>
    have hdone : (p.finish i t o).effort = (p.moveTo i .arriving).effort := effort_of_eq rfl rfl rfl
    have := hstay .arriving
    simp only [Station.effort] at this
    omega

theorem length_unblock_lt {serial : Nat} {t : Task} (ht : t ∈ p.blocked) (hs : t.serial = serial) :
    (p.unblock serial).blocked.length < p.blocked.length := by
  simp only [unblock, List.length_filter_lt_length_iff_exists]
  exact ⟨t, ht, by simp [hs]⟩

theorem effort_admit? {serial : Nat} (hq : p.admit? serial = some q) : q.effort < p.effort := by
  rw [admit?] at hq
  split at hq
  · cases hq
  · rename_i t ht
    split at hq <;> cases hq
    have hless := length_unblock_lt (List.mem_of_find?_eq_some ht) (by simpa using List.find?_some ht)
    simp only [unblock] at hless
    simp only [effort, unblock, List.length_append, List.length_singleton]
    omega

theorem effort_giveUp? {serial : Nat} (hq : p.giveUp? serial = some q) : q.effort < p.effort := by
  rw [giveUp?] at hq
  split at hq
  · rename_i hb
    cases hq
    obtain ⟨t, ht, hs, -⟩ := find?_isBlocked hb.1
    have hless := length_unblock_lt ht hs
    simp only [unblock] at hless
    simp only [effort, unblock, count, setReply]
    omega
  · cases hq

end Pool

namespace Floor
open Pool

variable {f g : Floor} {d : Deed} {ds : List Deed}

def effort (f : Floor) : Nat := 9 * f.asked.length + 8 * f.connected.length + f.pool.effort

theorem effort_step? (hc : f.pool.Crewed) (hd : d.isStride = true) (hg : f.step? d = some g) :
    g.effort < f.effort := by
  cases d with
  | ask u => cases hd
  | connect u =>
    simp only [step?] at hg
    split at hg <;> cases hg
    rename_i hu
    have := List.length_erase_of_mem hu.1
    have := List.length_pos_of_mem hu.1
    simp only [effort, List.length_cons]
    omega
  | turnBack u =>
    simp only [step?] at hg
    split at hg <;> cases hg
    rename_i hu
    have := List.length_erase_of_mem hu.1
    have := List.length_pos_of_mem hu.1
    simp only [effort]
    omega
  | announce u =>
    simp only [step?] at hg
    split at hg
    · rename_i hu
      cases hg
      have := List.length_erase_of_mem hu
      have := List.length_pos_of_mem hu
      have hann : (f.pool.announce u).effort = f.pool.effort + 7 := by
        simp only [Pool.effort, Pool.announce, count, List.length_append, List.length_singleton]
        omega
      simp only [effort, hann]
      omega
    · cases hg
  | act a =>
    simp only [step?] at hg
    split at hg
    · obtain ⟨q, hq, rfl⟩ := Option.map_eq_some_iff.mp hg
      refine Nat.add_lt_add_left (?_ : q.effort < f.pool.effort) _
      cases a with
      | proceed serial => exact effort_admit? hq
      | giveUp serial => exact effort_giveUp? hq
      | move hand m =>
        simp only [Pool.perform?] at hq
        split at hq
        · rename_i hh
          exact effort_move? hc hh hq
        · cases hq
      | _ => cases hd
    · cases hg

theorem effort_run? (hs : f.pool.Sound f.journal) (hd : ∀ d ∈ ds, d.isStride = true)
    (hg : f.run? ds = some g) : ds.length + g.effort ≤ f.effort := by
  induction ds generalizing f with
  | nil =>
    cases hg
    simp
  | cons d ds ih =>
    obtain ⟨f₁, hf, hrest⟩ := Option.bind_eq_some_iff.mp hg
    have hless := effort_step? hs.crewed (hd d (List.mem_cons_self ..)) hf
    have hle := ih (sound_step? hs hf) (fun e he => hd e (List.mem_cons_of_mem _ he)) hrest
    simp only [List.length_cons]
    omega

/-- Nothing is left to do, and nobody can bring anything more. -/
structure Exhausted (f : Floor) : Prop where
  pool : f.pool.isExhausted = true
  connected : f.connected = []

theorem step?_move {h : Hand} {m : Move} {q : Pool} (hh : h ∈ f.pool.hands)
    (ha : f.allows (.move h m) = true) (hq : f.pool.move? h.id h.station m = some q) :
    ∃ d g, d.isStride = true ∧ f.step? d = some g :=
  ⟨.act (.move h m), { f with pool := q, journal := f.journal ++ (f.pool.note? (.move h m)).toList }, rfl, by
    simp [Floor.step?, ha, Floor.perform?, Pool.perform?, hh, hq]⟩

theorem stride_of_empty {i : Nat} (hh : ⟨i, .choosing⟩ ∈ f.pool.hands) (hl : f.pool.backlog = [])
    (ha : f.pool.accepting = false) (hd : 0 < f.pool.depth) :
    ∃ d g, d.isStride = true ∧ f.step? d = some g := by
  cases hb : f.pool.blocked with
  | cons t rest =>
    have hfind : f.pool.blocked.find? (·.serial = t.serial) = some t := by simp [hb]
    have hroom : f.pool.hasRoom = true := by simp [hasRoom, hl, hd]
    exact ⟨.act (.proceed t.serial), _, rfl, by
      simp [Floor.step?, allows, Floor.perform?, Pool.perform?, Pool.admit?, hfind, hroom]; rfl⟩
  | nil =>
    cases hc : f.connected with
    | cons u rest =>
      exact ⟨.announce u, _, rfl, by
        simp only [Floor.step?, hc, List.mem_cons_self, if_true]
        rfl⟩
    | nil =>
      have hex : f.pool.isExhausted = true := by simp [isExhausted, hl, ha, hb]
      exact step?_move hh (m := .leave) (by simp [allows, hc])
        (by simp only [Pool.move?, hex, if_true]; rfl)

/-- As long as there is a worker, somebody can go on. -/
theorem exists_stride (hh : f.pool.hands ≠ []) (hg : f.pool.gate.closed = false)
    (ha : f.pool.accepting = false) (hd : 0 < f.pool.depth) :
    ∃ d g, d.isStride = true ∧ f.step? d = some g := by
  obtain ⟨⟨i, s⟩, hm⟩ := List.exists_mem_of_ne_nil _ hh
  cases s with
  | arriving =>
    exact step?_move hm (m := .pass) rfl (by simp only [Pool.move?, hg]; rfl)
  | looking => exact step?_move hm (m := .look) rfl rfl
  | choosing =>
    cases hl : f.pool.backlog with
    | nil => exact stride_of_empty hm hl ha hd
    | cons t rest => exact step?_move hm (m := .claim) rfl (by simp only [Pool.move?, claim?, hl]; rfl)
  | holding t =>
    exact step?_move hm (m := .pass) rfl (by simp only [Pool.move?, hg]; rfl)
  | starting t => exact step?_move hm (m := .start) rfl rfl
  | running t => exact step?_move hm (m := .finish (.success .zero)) rfl rfl

end Floor
end BatchJob.Worker
