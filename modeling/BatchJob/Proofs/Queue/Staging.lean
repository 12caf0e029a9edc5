import BatchJob.Proofs.Queue.Spill
import BatchJob.Queue.Staging

/-! Whichever queue a job keeps its identifiers in, it gives them back in the order in which it took them. -/
namespace BatchJob.Queue.Staging

def Holds : Staging → List String → Prop
  | ring r, xs => r.Holds xs
  | spill q, xs => 0 < q.memory.capacity ∧ ∃ ms fs, q.Holds ms fs ∧ xs = ms ++ fs

variable {s : Staging} {xs : List String}

theorem holds_build {spillToDisk : Bool} {n : Nat} {dir : Option String} {fs : Files}
    (h : build spillToDisk n dir fs = .ok s) : s.Holds [] := by
  rw [build] at h
  cases spillToDisk with
  | false =>
    cases h
    exact Ring.holds_empty n
  | true =>
    simp only [if_true] at h
    cases hp : Spill.problem? n dir fs with
    | some problem =>
      rw [hp] at h
      cases h
    | none =>
      rw [hp] at h
      cases h
      have hn : n ≠ 0 := by
        intro hz
        simp [Spill.problem?, hz] at hp
      refine ⟨?_, [], [], Spill.holds_empty n, rfl⟩
      simp only [Spill.empty, Ring.capacity_empty]
      omega

theorem length_eq (h : s.Holds xs) : s.length = xs.length := by
  cases s with
  | ring r => exact Ring.Holds.count_eq h
  | spill q =>
    obtain ⟨-, ms, fs, hh, rfl⟩ := h
    rw [length, Spill.length, hh.memory.count_eq, hh.spilled_eq, List.length_append]

theorem isEmpty_iff (h : s.Holds xs) : s.isEmpty = true ↔ xs = [] := by simp [isEmpty, length_eq h]

theorem holds_offer (h : s.Holds xs) {entry : String} (he : entry ≠ "") (disk : Disk)
    (hok : (s.offer entry disk).1 = .ok true) : (s.offer entry disk).2.Holds (xs ++ [entry]) := by
  cases s with
  | ring r =>
    by_cases hroom : xs.length < r.capacity
    · exact (Ring.offer_of_room h he hroom).2.1
    · have hfull : r.isFull = true := by
        have := Ring.Holds.fits h
        simp only [Ring.isFull, Ring.Holds.count_eq h, decide_eq_true_eq]
        omega
      simp [offer, Ring.offer, he, hfull] at hok
  | spill q =>
    obtain ⟨hpos, ms, fs, hh, rfl⟩ := h
    obtain ⟨hcap, ⟨-, ms', fs', hh', heq⟩ | ⟨herr, -⟩⟩ := Spill.offer_holds hh he disk
    · exact ⟨hcap ▸ hpos, ms', fs', hh', heq.symm⟩
    · simp [offer, herr, Except.map] at hok

theorem holds_poll (h : s.Holds xs) (disk : Disk) :
    match (s.poll disk).1 with
    | .ok (some x) => ∃ rest, xs = x :: rest ∧ (s.poll disk).2.Holds rest
    | .ok none => xs = [] ∧ (s.poll disk).2.Holds []
    | .error _ => True := by
  cases s with
  | ring r =>
    cases xs with
    | nil =>
      have hp := Ring.poll_nil h
      simp only [poll, hp]
      exact ⟨trivial, h⟩
    | cons x rest =>
      obtain ⟨hx, hrest, -⟩ := Ring.poll_cons h
      simp only [poll, hx]
      exact ⟨rest, rfl, hrest⟩
  | spill q =>
    obtain ⟨hpos, ms, fs, hh, rfl⟩ := h
    obtain ⟨hcap, ms', fs', hh', heq⟩ := Spill.poll_holds hh hpos disk
    simp only [poll]
    cases hr : (q.poll disk).1 with
    | error e => trivial
    | ok result =>
      rw [hr] at heq
      cases result with
      | none => exact ⟨heq.1, hcap ▸ hpos, ms', fs', hh', heq.2.symm⟩
      | some x => exact ⟨ms' ++ fs', heq, hcap ▸ hpos, ms', fs', hh', rfl⟩

/-- A ring has at least one slot; a queue that spills has room in any case. -/
def Roomy : Staging → Prop
  | ring r => 0 < r.capacity
  | spill _ => True

theorem roomy_build {spillToDisk : Bool} {n : Nat} {dir : Option String} {fs : Files}
    (h : build spillToDisk n dir fs = .ok s) (hn : 0 < n) : s.Roomy := by
  rw [build] at h
  cases spillToDisk with
  | false =>
    cases h
    simpa [Roomy] using hn
  | true =>
    simp only [if_true] at h
    split at h <;> cases h
    trivial

theorem Roomy.offer (h : s.Roomy) (entry : String) (disk : Disk) : (s.offer entry disk).2.Roomy := by
  cases s with
  | ring r =>
    have hcap : (r.offer entry).2.capacity = r.capacity := by
      rw [Ring.offer]
      split
      · rfl
      · split
        · rfl
        · exact List.length_set
    show 0 < (r.offer entry).2.capacity
    rw [hcap]
    exact h
  | spill q => trivial

theorem Roomy.poll (h : s.Roomy) (disk : Disk) : (s.poll disk).2.Roomy := by
  cases s with
  | ring r =>
    have hcap : r.poll.2.capacity = r.capacity := by
      rw [Ring.poll]
      split
      · rfl
      · exact List.length_set
    show 0 < r.poll.2.capacity
    rw [hcap]
    exact h
  | spill q => trivial

theorem ne_nil_of_isFull (h : s.Holds xs) (hr : s.Roomy) (hf : s.isFull = true) : xs ≠ [] := by
  cases s with
  | ring r =>
    have hcount := Ring.Holds.count_eq h
    have hcap : r.count = r.capacity := by simpa [isFull, Ring.isFull] using hf
    have hpos : 0 < r.capacity := hr
    rw [← List.length_pos_iff]
    omega
  | spill q => cases hf

theorem offer_ne_false (hf : s.isFull = false) (entry : String) (disk : Disk) :
    (s.offer entry disk).1 ≠ .ok false := by
  cases s with
  | ring r =>
    have hroom : r.isFull = false := hf
    by_cases he : entry = "" <;> simp [offer, Ring.offer, hroom, he]
  | spill q => cases hr : (q.offer entry disk).1 <;> simp [offer, hr, Except.map]

theorem offer_error (h : s.Holds xs) {entry : String} (he : entry ≠ "") {disk : Disk} {e : QueueError}
    (herr : (s.offer entry disk).1 = .error e) : ∃ text, e = .io text := by
  cases s with
  | ring r =>
    simp only [offer, Ring.offer, he, if_false] at herr
    split at herr <;> cases herr
  | spill q =>
    obtain ⟨-, ms, fs, hh, rfl⟩ := h
    obtain ⟨-, ⟨hok, -⟩ | ⟨hfail, -⟩⟩ := Spill.offer_holds hh he disk
    · simp [offer, hok, Except.map] at herr
    · simp only [offer, hfail, Except.map, Except.error.injEq] at herr
      exact ⟨_, herr.symm⟩

theorem poll_error (h : s.Holds xs) {disk : Disk} {e : QueueError} (herr : (s.poll disk).1 = .error e) :
    ∃ text, e = .io text := by
  cases s with
  | ring r => cases herr
  | spill q =>
    obtain ⟨-, ms, fs, hh, rfl⟩ := h
    have hfits := hh.memory.fits
    have hroom : ms.length + q.memory.room ≤ q.memory.capacity := by
      rw [Ring.room, hh.memory.count_eq]
      omega
    obtain ⟨hresult, -⟩ := Spill.refill_holds q.memory.room hh hroom disk
    simp only [poll, Spill.poll] at herr
    split at herr
    · rename_i hfill
      split at hfill
      · rw [hfill] at hresult
        simp only at hresult
        split at hresult <;> cases hresult
        exact ⟨_, (Except.error.inj herr).symm⟩
      · cases hfill
    · cases herr

end BatchJob.Queue.Staging
