import BatchJob.Queue.Ring
import Mathlib.Data.List.Basic
import Mathlib.Tactic.SplitIfs

/-! A ring holds a list: walking round from the oldest entry one meets the list and then free slots.
Every operation on the ring is the operation on the list. -/
namespace BatchJob.Queue.Ring

/-- Slot by slot from the oldest entry on there are the entries of `xs` and nothing more. -/
structure Holds (r : Ring) (xs : List String) : Prop where
  count_eq : r.count = xs.length
  fits : xs.length ≤ r.capacity
  takeAt_lt : 0 < r.capacity → r.takeAt < r.capacity
  putAt_eq : 0 < r.capacity → r.putAt = r.place xs.length
  slot_place : ∀ k < r.capacity, r.slot (r.place k) = xs[k]?

theorem holds_empty (n : Nat) : (empty n).Holds [] where
  count_eq := rfl
  fits := by simp
  takeAt_lt h := by simpa [empty] using h
  putAt_eq h := by simp [empty, place]
  slot_place k hk := by
    simp only [slot, empty, List.getElem?_replicate]
    split_ifs <;> rfl

variable {r : Ring} {xs : List String}

theorem place_eq (ht : r.takeAt < r.capacity) {k : Nat} (hk : k ≤ r.capacity) :
    r.place k = if r.takeAt + k < r.capacity then r.takeAt + k else r.takeAt + k - r.capacity := by
  rw [place]
  split_ifs with h
  · exact Nat.mod_eq_of_lt h
  · rw [Nat.mod_eq_sub_mod (by omega), Nat.mod_eq_of_lt (by omega)]

theorem place_lt (hc : 0 < r.capacity) (k : Nat) : r.place k < r.capacity := Nat.mod_lt _ hc

theorem place_injective (ht : r.takeAt < r.capacity) {j k : Nat} (hj : j < r.capacity)
    (hk : k < r.capacity) (h : r.place j = r.place k) : j = k := by
  rw [place_eq ht (Nat.le_of_lt hj), place_eq ht (Nat.le_of_lt hk)] at h
  split_ifs at h <;> omega

theorem after_place (ht : r.takeAt < r.capacity) {k : Nat} (hk : k < r.capacity) :
    r.after (r.place k) = r.place (k + 1) := by
  rw [place_eq ht (Nat.le_of_lt hk), place_eq ht (by omega : k + 1 ≤ r.capacity), after]
  split_ifs <;> omega

theorem capacity_of_set {q : Ring} {i : Nat} {entry : Option String}
    (hs : q.slots = r.slots.set i entry) : q.capacity = r.capacity := by
  simp [capacity, hs]

theorem slot_of_set {q : Ring} {i : Nat} {entry : Option String}
    (hs : q.slots = r.slots.set i entry) (hi : i < r.capacity) (j : Nat) :
    q.slot j = if i = j then entry else r.slot j := by
  rw [slot, slot, hs]
  split_ifs with h
  · subst h
    have hl : i < r.slots.length := hi
    simp [hl]
  · simp [h]

theorem toList_eq (h : r.Holds xs) : r.toList = xs := by
  have hs : ∀ k ∈ List.range xs.length, r.slot (r.place k) = xs[k]? := by
    intro k hk
    exact h.slot_place k (Nat.lt_of_lt_of_le (List.mem_range.mp hk) h.fits)
  have hr : (List.range xs.length).filterMap (fun k => xs[k]?) = xs := by
    clear hs h
    induction xs with
    | nil => rfl
    | cons x xs ih => simp [List.range_succ_eq_map, List.filterMap_map, ih]
  rw [toList, h.count_eq, List.filterMap_congr hs, hr]

theorem Holds.put {q : Ring} (h : r.Holds xs) (hroom : xs.length < r.capacity) {entry : String}
    (hs : q.slots = r.slots.set r.putAt (some entry)) (ht : q.takeAt = r.takeAt)
    (hp : q.putAt = r.after r.putAt) (hn : q.count = r.count + 1) : q.Holds (xs ++ [entry]) := by
  have hc : 0 < r.capacity := by omega
  have htake := h.takeAt_lt hc
  have hput := h.putAt_eq hc
  have hcap : q.capacity = r.capacity := capacity_of_set hs
  have hplace : ∀ k, q.place k = r.place k := fun k => by rw [place, place, hcap, ht]
  constructor
  case count_eq => simp [hn, h.count_eq]
  case fits => rw [hcap, List.length_append, List.length_singleton]; omega
  case takeAt_lt => intro _; rw [hcap, ht]; exact htake
  case putAt_eq =>
    intro _
    rw [hplace, hp, hput, after_place htake hroom, List.length_append, List.length_singleton]
  case slot_place =>
    intro k hk
    rw [hcap] at hk
    rw [hplace, slot_of_set hs (hput ▸ place_lt hc _), hput]
    by_cases hk' : k = xs.length
    · rw [hk', if_pos rfl, List.getElem?_concat_length]
    · have hne : r.place xs.length ≠ r.place k := fun he =>
        hk' (place_injective htake hroom hk he).symm
      rw [if_neg hne, h.slot_place k hk]
      rcases Nat.lt_or_gt_of_ne hk' with hlt | hgt
      · rw [List.getElem?_append_left hlt]
      · rw [List.getElem?_eq_none (by omega), List.getElem?_eq_none (by simp; omega)]

theorem Holds.place_zero (h : r.Holds xs) (hc : 0 < r.capacity) : r.place 0 = r.takeAt := by
  rw [place, Nat.add_zero, Nat.mod_eq_of_lt (h.takeAt_lt hc)]

theorem Holds.capacity_pos {x : String} (h : r.Holds (x :: xs)) : 0 < r.capacity := by
  have hfits := h.fits
  rw [List.length_cons] at hfits
  omega

theorem Holds.take {q : Ring} {x : String} (h : r.Holds (x :: xs))
    (hs : q.slots = r.slots.set r.takeAt none) (ht : q.takeAt = r.after r.takeAt)
    (hp : q.putAt = r.putAt) (hn : q.count = r.count - 1) : q.Holds xs := by
  have hfits := h.fits
  rw [List.length_cons] at hfits
  have hc := h.capacity_pos
  have htake := h.takeAt_lt hc
  have hcap : q.capacity = r.capacity := capacity_of_set hs
  -- An offset from the second entry is one more from the first.
  have hplace : ∀ k, q.place k = r.place (k + 1) := by
    intro k
    rw [place, hcap, ht, ← h.place_zero hc, after_place htake hc, place, place, Nat.mod_add_mod]
    congr 1
    omega
  constructor
  case count_eq => simp [hn, h.count_eq]
  case fits => rw [hcap]; omega
  case takeAt_lt =>
    intro _
    rw [hcap, ht, ← h.place_zero hc, after_place htake hc]
    exact place_lt hc 1
  case putAt_eq => intro _; rw [hplace, hp, h.putAt_eq hc, List.length_cons]
  case slot_place =>
    intro k hk
    rw [hcap] at hk
    rw [hplace, slot_of_set hs htake]
    rcases Nat.lt_or_ge (k + 1) r.capacity with hlt | hge
    · have hne : r.takeAt ≠ r.place (k + 1) := by
        rw [← h.place_zero hc]
        intro he
        exact absurd (place_injective htake hc hlt he) (by omega)
      rw [if_neg hne, h.slot_place (k + 1) hlt, List.getElem?_cons_succ]
    · -- The freed slot comes last.
      have hk' : k + 1 = r.capacity := by omega
      have he : r.takeAt = r.place (k + 1) := by
        rw [hk', place, Nat.add_mod_right, Nat.mod_eq_of_lt htake]
      rw [if_pos he, List.getElem?_eq_none (by omega)]

theorem offer_of_room (h : r.Holds xs) {entry : String} (he : entry ≠ "")
    (hroom : xs.length < r.capacity) :
    (r.offer entry).1 = .ok true ∧ (r.offer entry).2.Holds (xs ++ [entry]) ∧
      (r.offer entry).2.capacity = r.capacity := by
  have hf : r.isFull = false := by simp only [isFull, h.count_eq, decide_eq_false_iff_not]; omega
  simp only [offer, he, hf, if_false, Bool.false_eq_true]
  exact ⟨trivial, h.put hroom rfl rfl rfl rfl, List.length_set⟩

theorem offer_of_full (h : r.Holds xs) {entry : String} (he : entry ≠ "")
    (hfull : xs.length = r.capacity) : r.offer entry = (.ok false, r) := by
  have hf : r.isFull = true := by simp only [isFull, h.count_eq, hfull, decide_true]
  simp only [offer, he, hf, if_false, if_true]

theorem slot_takeAt {x : String} (h : r.Holds (x :: xs)) : r.slot r.takeAt = some x := by
  have hc := h.capacity_pos
  rw [← h.place_zero hc, h.slot_place 0 hc]
  rfl

theorem poll_nil (h : r.Holds []) : r.poll = (none, r) := by
  have hc : r.count = 0 := h.count_eq
  rw [poll, if_pos hc]

theorem poll_cons {x : String} (h : r.Holds (x :: xs)) :
    r.poll.1 = some x ∧ r.poll.2.Holds xs ∧ r.poll.2.capacity = r.capacity := by
  have hc : r.count ≠ 0 := by simp [h.count_eq]
  rw [poll, if_neg hc]
  exact ⟨slot_takeAt h, h.take rfl rfl rfl rfl, List.length_set⟩

theorem peek_eq (h : r.Holds xs) : r.peek = xs.head? := by
  cases xs with
  | nil => simp [peek, h.count_eq]
  | cons x xs =>
    have hc : r.count ≠ 0 := by simp [h.count_eq]
    rw [peek, if_neg hc, slot_takeAt h]
    rfl

end BatchJob.Queue.Ring
