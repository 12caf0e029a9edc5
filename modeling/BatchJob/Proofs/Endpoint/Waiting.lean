import BatchJob.Proofs.Endpoint.Selection
import Mathlib.Logic.Relation

/-! Callers at the desk. One who asks for an endpoint waits until the pool has a free one, and is given what the
policy chooses then; whatever is asked, the pool stays valid and the clock is not set back. -/
namespace BatchJob.Endpoint

theorem Pool.look_granted {p q : Pool} {now : Duration} {draw waits : Nat} {e : Endpoint}
    (h : p.look now draw waits = .granted e q) : p.closed = false ∧ p.select? now draw = some (e, q) := by
  rw [look] at h
  split at h
  · cases h
  · split at h
    · cases h
    · split at h
      · cases h
        exact ⟨by simpa using ‹¬p.closed = true›, ‹_›⟩
      · cases h

namespace Desk
variable {d d' : Desk} {e : Endpoint} {answer : Except Refusal Endpoint} {refusal : Refusal}
variable {nap : Duration → Desk → Desk} {budget waits : Nat}

/-- What becomes of the desk during some waits of a caller. -/
abbrev Waited (nap : Duration → Desk → Desk) : Desk → Desk → Prop :=
  Relation.ReflTransGen fun d d' => ∃ t, d' = nap t d

/-- A caller takes what is selected at one look at the desk, or goes away without an endpoint. -/
theorem acquire_cases (h : acquire nap budget waits d = (answer, d')) :
    ∃ d₁, Waited nap d d₁ ∧
      ((∃ e pool, answer = .ok e ∧ d₁.pool.closed = false ∧
          d₁.pool.select? d₁.now d₁.draws = some (e, pool) ∧
          d' = { d₁ with pool := pool, draws := d₁.draws + 1 }) ∨
        (∃ refusal, answer = .error refusal) ∧ d' = d₁) := by
  induction budget, waits, d using acquire.induct nap with
  | case1 budget waits d e pool hlook =>
    rw [acquire, hlook] at h
    obtain ⟨rfl, rfl⟩ := Prod.mk.inj h
    obtain ⟨hopen, hsel⟩ := Pool.look_granted hlook
    exact ⟨d, .refl, Or.inl ⟨e, pool, rfl, hopen, hsel, rfl⟩⟩
  | case2 budget waits d refusal hlook =>
    rw [acquire, hlook] at h
    obtain ⟨rfl, rfl⟩ := Prod.mk.inj h
    exact ⟨d, .refl, Or.inr ⟨⟨refusal, rfl⟩, rfl⟩⟩
  | case3 waits d t hlook =>
    rw [acquire, hlook] at h
    obtain ⟨rfl, rfl⟩ := Prod.mk.inj h
    exact ⟨d, .refl, Or.inr ⟨⟨_, rfl⟩, rfl⟩⟩
  | case4 waits d t hlook budget ih =>
    rw [acquire, hlook] at h
    obtain ⟨d₁, hwaited, hend⟩ := ih h
    exact ⟨d₁, .head ⟨t, rfl⟩ hwaited, hend⟩

theorem now_le_sleep (d : Desk) (t : Duration) : d.now ≤ (d.sleep t).now := by
  rw [Duration.le_iff]
  simp only [now, sleep, Clock.now_sleep]
  split
  · exact Nat.le_refl _
  · simp

theorem waited_sleep (h : Waited sleep d d') : d'.pool = d.pool ∧ d'.draws = d.draws ∧ d.now ≤ d'.now := by
  induction h with
  | refl => exact ⟨rfl, rfl, Nat.le_refl _⟩
  | tail _ hstep ih =>
    obtain ⟨t, rfl⟩ := hstep
    exact ⟨ih.1, ih.2.1, Nat.le_trans ih.2.2 (now_le_sleep _ t)⟩

theorem get_granted (h : d.get = (.ok e, d')) :
    d.pool.closed = false ∧ d.pool.select? d'.now d.draws = some (e, d'.pool) ∧ d.now ≤ d'.now := by
  obtain ⟨d₁, hwaited, ⟨e', pool, he, hopen, hsel, rfl⟩ | ⟨⟨_, hr⟩, -⟩⟩ := acquire_cases h
  · obtain ⟨hpool, hdraws, hnow⟩ := waited_sleep hwaited
    obtain rfl := Except.ok.inj he
    rw [hpool] at hopen
    rw [hpool, hdraws] at hsel
    exact ⟨hopen, hsel, hnow⟩
  · cases hr

theorem get_refused (h : d.get = (.error refusal, d')) : d'.pool = d.pool ∧ d.now ≤ d'.now := by
  obtain ⟨d₁, hwaited, ⟨_, _, he, _⟩ | ⟨-, rfl⟩⟩ := acquire_cases h
  · cases he
  · exact ⟨(waited_sleep hwaited).1, (waited_sleep hwaited).2.2⟩

theorem get_of_free {r : Registration} (hopen : d.pool.closed = false) (hr : r ∈ d.pool.entries)
    (hfree : r.isFree d.pool.settings d.now = true) : ∃ e d', d.get = (.ok e, d') ∧ d'.clock = d.clock := by
  obtain ⟨e, q, hsel⟩ := Pool.exists_select? hr hfree d.draws
  have hlook : d.pool.look d.now d.draws 0 = .granted e q := by
    simp [Pool.look, hopen, List.ne_nil_of_mem hr, hsel]
  refine ⟨e, { d with pool := q, draws := d.draws + 1 }, ?_, rfl⟩
  rw [get, acquire, hlook]

@[simp] theorem handleAll_nil (d : Desk) : d.handleAll [] = d := rfl

@[simp] theorem handleAll_cons (d : Desk) (q : Request) (requests : List Request) :
    d.handleAll (q :: requests) = (d.handle q).2.handleAll requests := rfl

theorem handle_get (d : Desk) : (d.handle .get).2 = d.get.2 := by
  rw [handle]
  rcases d.get with ⟨_ | _, _⟩ <;> rfl

theorem handle_getMany (d : Desk) (n : Nat) :
    (d.handle (.getMany n)).2 = d.handleAll (List.replicate n .get) := by
  change (d.getTexts n).2 = _
  induction n generalizing d with
  | zero => rfl
  | succ n ih =>
    rw [List.replicate_succ, handleAll_cons, handle_get, ← ih]
    rfl

/-- Later, at a valid pool with the same settings. -/
structure Follows (d d' : Desk) : Prop where
  pool : d.pool.Continues d'.pool
  now_le : d.now ≤ d'.now

theorem follows_refl (h : d.pool.Valid) : d.Follows d := ⟨h.continues, Nat.le_refl _⟩

theorem Follows.trans {d'' : Desk} (h : d.Follows d') (h' : d'.Follows d'') : d.Follows d'' :=
  ⟨⟨h'.pool.valid, h'.pool.settings.trans h.pool.settings⟩, Nat.le_trans h.now_le h'.now_le⟩

theorem follows_get (h : d.pool.Valid) : d.Follows d.get.2 := by
  rcases hget : d.get with ⟨answer, d'⟩
  cases answer with
  | error refusal =>
    obtain ⟨hpool, hnow⟩ := get_refused hget
    exact ⟨by rw [hpool]; exact h.continues, hnow⟩
  | ok e =>
    obtain ⟨-, hsel, hnow⟩ := get_granted hget
    obtain ⟨i, r, -, -, hpool, hchosen⟩ := Pool.select?_cases h hsel
    refine ⟨?_, hnow⟩
    rw [hpool]
    exact h.passTurn (List.getElem?_eq_some_iff.mp hchosen.entry).1

theorem entries_get (h : d.pool.Valid) : d.get.2.pool.entries = d.pool.entries := by
  rcases hget : d.get with ⟨answer, d'⟩
  cases answer with
  | error refusal => rw [(get_refused hget).1]
  | ok e =>
    obtain ⟨i, r, -, -, hpool, -⟩ := Pool.select?_cases h (get_granted hget).2.1
    rw [hpool, Pool.passTurn]
    split <;> rfl

theorem entries_gets (h : d.pool.Valid) (n : Nat) :
    (d.handleAll (List.replicate n .get)).pool.entries = d.pool.entries := by
  induction n generalizing d with
  | zero => rfl
  | succ n ih =>
    rw [List.replicate_succ, handleAll_cons, handle_get, ih (follows_get h).pool.valid, entries_get h]

theorem follows_gets (h : d.pool.Valid) (n : Nat) : d.Follows (d.handleAll (List.replicate n .get)) := by
  induction n generalizing d with
  | zero => exact follows_refl h
  | succ n ih =>
    rw [List.replicate_succ, handleAll_cons, handle_get]
    have hget := follows_get h
    exact hget.trans (ih hget.pool.valid)

theorem follows_handle (h : d.pool.Valid) (q : Request) : d.Follows (d.handle q).2 := by
  cases q with
  | get => rw [handle_get]; exact follows_get h
  | getMany n => rw [handle_getMany]; exact follows_gets h n
  | fail e leased => exact ⟨h.fail e leased d.now, Nat.le_refl _⟩
  | succeed e => exact ⟨h.modify e fun _ => rfl, Nat.le_refl _⟩
  | hold e => exact ⟨h.modify e fun _ => rfl, Nat.le_refl _⟩
  | release e => exact ⟨h.modify e fun _ => rfl, Nat.le_refl _⟩
  | remove e => exact ⟨h.remove e, Nat.le_refl _⟩
  | query e => exact follows_refl h
  | close => exact ⟨h.close, Nat.le_refl _⟩
  | advance t => exact ⟨h.continues, Nat.le_add_right _ _⟩

theorem follows_handleAll (h : d.pool.Valid) (requests : List Request) :
    d.Follows (d.handleAll requests) := by
  induction requests generalizing d with
  | nil => exact follows_refl h
  | cons q requests ih =>
    have hq := follows_handle h q
    exact hq.trans (ih hq.pool.valid)

/-- A wait during which others ask for something. -/
def amid (others : Duration → Desk → List Request) (t : Duration) (d : Desk) : Desk :=
  (d.sleep t).handleAll (others t d)

theorem valid_amid {others : Duration → Desk → List Request} (h : d.pool.Valid)
    (hwaited : Waited (amid others) d d') : d'.pool.Valid := by
  induction hwaited with
  | refl => exact h
  | tail _ hstep ih =>
    obtain ⟨t, rfl⟩ := hstep
    exact (follows_handleAll (d := sleep t _) ih _).pool.valid

end Desk
end BatchJob.Endpoint
