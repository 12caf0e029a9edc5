import BatchJob.Proofs.Queue.Ring
import Mathlib.Data.List.Induction

/-! Walks along a ring. Each entry is shown once and in order, whatever is removed on the way; only the entry that was
shown last can be removed, and the others keep their order. The gap that a removal leaves moves to the end, slot by
slot. -/
namespace BatchJob.Queue

namespace Ring
variable {r q : Ring} {xs : List String} {k : Nat}

theorem place_congr (ht : q.takeAt = r.takeAt) (hc : q.capacity = r.capacity) (k : Nat) : q.place k = r.place k := by
  rw [place, place, ht, hc]

/-- The slots from the oldest on show `xs` with one free slot after the first `k` entries. -/
def Gap (r : Ring) (xs : List String) (k : Nat) : Prop :=
  ∀ j < r.capacity, r.slot (r.place j) = if j < k then xs[j]? else if j = k then none else xs[j - 1]?

/-- The entry in the next slot moves one slot back. -/
def shift (r : Ring) (i : Nat) : Ring :=
  { r with slots := (r.slots.set i (r.slot (r.after i))).set (r.after i) none }

@[simp] theorem capacity_shift (r : Ring) (i : Nat) : (r.shift i).capacity = r.capacity := by simp [shift, capacity]

@[simp] theorem place_shift (r : Ring) (i k : Nat) : (r.shift i).place k = r.place k :=
  place_congr (q := r.shift i) (r := r) rfl (capacity_shift r i) k

theorem slide_succ (n i : Nat) (r : Ring) : slide (n + 1) i r = slide n (r.after i) (r.shift i) := rfl

theorem slot_shift {i : Nat} (hi : i < r.capacity) (hnext : r.after i < r.capacity) (j : Nat) :
    (r.shift i).slot j = if r.after i = j then none else if i = j then r.slot (r.after i) else r.slot j := by
  have hfirst : ({ r with slots := r.slots.set i (r.slot (r.after i)) } : Ring).capacity = r.capacity := by
    simp [capacity]
  rw [slot_of_set (r := { r with slots := r.slots.set i (r.slot (r.after i)) }) rfl (hfirst.symm ▸ hnext),
    slot_of_set rfl hi]

theorem Gap.shift (h : r.Gap xs k) (ht : r.takeAt < r.capacity) (hk : k + 1 < r.capacity) :
    (r.shift (r.place k)).Gap xs (k + 1) := by
  intro j hj
  rw [capacity_shift] at hj
  have hpos : 0 < r.capacity := Nat.zero_lt_of_lt hj
  have hnext : r.after (r.place k) = r.place (k + 1) := after_place ht (Nat.lt_of_succ_lt hk)
  have hsame {a b : Nat} (ha : a < r.capacity) (hb : b < r.capacity) : r.place a = r.place b ↔ a = b :=
    ⟨place_injective ht ha hb, congrArg _⟩
  rw [place_shift, slot_shift (place_lt hpos k) (hnext ▸ place_lt hpos _), hnext]
  simp only [hsame hk hj, hsame (Nat.lt_of_succ_lt hk) hj]
  by_cases hnew : k + 1 = j
  · simp [← hnew]
  · by_cases hold : k = j
    · -- What was behind the gap is now where the gap was.
      subst hold
      rw [if_neg hnew, if_pos rfl, h (k + 1) hk, if_neg (by omega), if_neg (by omega), if_pos (by omega),
        Nat.add_sub_cancel]
    · rw [if_neg hnew, if_neg hold, h j hj]
      split_ifs <;> first | rfl | omega

@[simp] theorem capacity_slide (n i : Nat) (r : Ring) : (slide n i r).2.capacity = r.capacity := by
  induction n generalizing i r with
  | zero => rfl
  | succ n ih => rw [slide_succ, ih, capacity_shift]

@[simp] theorem takeAt_slide (n i : Nat) (r : Ring) : (slide n i r).2.takeAt = r.takeAt := by
  induction n generalizing i r with
  | zero => rfl
  | succ n ih =>
    rw [slide_succ, ih]
    rfl

theorem slide_gap (n : Nat) (h : r.Gap xs k) (ht : r.takeAt < r.capacity) (hn : k + n = xs.length)
    (hlen : xs.length < r.capacity) :
    (slide n (r.place k) r).1 = r.place xs.length ∧ (slide n (r.place k) r).2.Gap xs xs.length := by
  induction n generalizing r k with
  | zero =>
    obtain rfl : k = xs.length := hn
    exact ⟨rfl, h⟩
  | succ n ih =>
    have hk : k + 1 < r.capacity := by omega
    have hnext : r.after (r.place k) = (r.shift (r.place k)).place (k + 1) := by
      rw [place_shift, after_place ht (Nat.lt_of_succ_lt hk)]
    have htake : (r.shift (r.place k)).takeAt < (r.shift (r.place k)).capacity := by
      rw [capacity_shift]
      exact ht
    obtain ⟨hlast, hgap⟩ := ih (h.shift ht hk) htake (by omega) (by rwa [capacity_shift])
    rw [slide_succ, hnext]
    exact ⟨hlast.trans (place_shift r _ _), hgap⟩

def free (r : Ring) (i : Nat) : Ring := { r with slots := r.slots.set i none }

@[simp] theorem capacity_free (r : Ring) (i : Nat) : (r.free i).capacity = r.capacity := by simp [free, capacity]

@[simp] theorem place_free (r : Ring) (i k : Nat) : (r.free i).place k = r.place k :=
  place_congr (q := r.free i) (r := r) rfl (capacity_free r i) k

variable {before after : List String} {x : String}

theorem Holds.gap (h : r.Holds (before ++ x :: after)) :
    (r.free (r.place before.length)).Gap (before ++ after) before.length := by
  have hfits := h.fits
  simp only [List.length_append, List.length_cons] at hfits
  have hpos : 0 < r.capacity := by omega
  intro j hj
  rw [capacity_free] at hj
  rw [place_free, free, slot_of_set rfl (place_lt hpos _)]
  by_cases hmid : before.length = j
  · simp [hmid]
  · have hne : r.place before.length ≠ r.place j := fun he =>
      hmid (place_injective (h.takeAt_lt hpos) (by omega) hj he)
    rw [if_neg hne, h.slot_place j hj]
    rcases Nat.lt_or_gt_of_ne hmid with hlt | hgt
    · have hback : j - before.length = (j - 1 - before.length) + 1 := by omega
      rw [if_neg (by omega), if_neg (Ne.symm hmid), List.getElem?_append_right (by omega), hback,
        List.getElem?_cons_succ, List.getElem?_append_right (by omega)]
    · rw [if_pos hgt, List.getElem?_append_left hgt, List.getElem?_append_left hgt]

theorem Gap.holds (h : r.Gap xs xs.length) (hcount : r.count = xs.length) (hfits : xs.length ≤ r.capacity)
    (ht : 0 < r.capacity → r.takeAt < r.capacity) (hput : 0 < r.capacity → r.putAt = r.place xs.length) :
    r.Holds xs := by
  refine ⟨hcount, hfits, ht, hput, fun j hj => ?_⟩
  rw [h j hj]
  split_ifs with hlt heq
  · rfl
  · rw [heq, List.getElem?_eq_none (Nat.le_refl _)]
  · rw [List.getElem?_eq_none (by omega), List.getElem?_eq_none (by omega)]

theorem removeAt_eq {offset last : Nat} {slid : Ring}
    (h : slide (r.count - (offset + 1)) (r.place offset) (r.free (r.place offset)) = (last, slid)) :
    r.removeAt offset = (r.slot (r.place offset), { slid with putAt := last, count := r.count - 1 }) := by
  rw [free] at h
  rw [removeAt, h]

@[simp] theorem capacity_removeAt (r : Ring) (offset : Nat) : (r.removeAt offset).2.capacity = r.capacity := by
  rw [removeAt_eq rfl]
  exact (capacity_slide _ _ _).trans (capacity_free r _)

/-- Any entry can be taken out, and the others stay in their order. -/
theorem removeAt_holds (h : r.Holds (before ++ x :: after)) :
    (r.removeAt before.length).1 = some x ∧ (r.removeAt before.length).2.Holds (before ++ after) := by
  have hfits := h.fits
  have hcount := h.count_eq
  simp only [List.length_append, List.length_cons] at hfits hcount
  have hpos : 0 < r.capacity := by omega
  have hmany : r.count - (before.length + 1) = after.length := by omega
  have htake : (r.free (r.place before.length)).takeAt < (r.free (r.place before.length)).capacity := by
    rw [capacity_free]
    exact h.takeAt_lt hpos
  have hslide := slide_gap after.length h.gap htake (by rw [List.length_append])
    (by rw [capacity_free, List.length_append]; omega)
  rw [place_free, place_free, ← hmany] at hslide
  have hsame := takeAt_slide (r.count - (before.length + 1)) (r.place before.length) (r.free (r.place before.length))
  have hcap := capacity_slide (r.count - (before.length + 1)) (r.place before.length) (r.free (r.place before.length))
  rw [capacity_free] at hcap
  rcases heq : slide (r.count - (before.length + 1)) (r.place before.length) (r.free (r.place before.length)) with
    ⟨last, slid⟩
  rw [heq] at hslide hsame hcap
  obtain ⟨hlast, hgap⟩ : last = r.place (before ++ after).length ∧ slid.Gap (before ++ after) (before ++ after).length :=
    hslide
  have hplace : ∀ k, slid.place k = r.place k := place_congr hsame hcap
  rw [removeAt_eq heq]
  refine ⟨?_, Gap.holds hgap ?_ ?_ (fun _ => ?_) fun _ => hlast.trans (hplace _).symm⟩
  · rw [h.slot_place _ (by omega)]
    simp
  · simp only [List.length_append]
    omega
  · rw [List.length_append]
    exact hcap ▸ by omega
  · exact (hsame ▸ hcap ▸ h.takeAt_lt hpos : slid.takeAt < slid.capacity)

end Ring

namespace Cursor

inductive Move where
  | next
  | remove
  deriving DecidableEq, Repr

inductive Reply where
  | entry (found : Option String)
  | removed (result : Except QueueError String)

def move (c : Cursor) : Move → Reply × Cursor
  | .next => (.entry c.next.1, c.next.2)
  | .remove => (.removed c.remove.1, c.remove.2)

def walk (c : Cursor) : List Move → List Reply × Cursor
  | [] => ([], c)
  | m :: moves => ((c.move m).1 :: ((c.move m).2.walk moves).1, ((c.move m).2.walk moves).2)

def Reply.entry? : Reply → Option String
  | .entry found => found
  | .removed _ => none

def visited (past : List Reply) : List String := past.filterMap Reply.entry?

def current? (past : List Reply) : Option String := past.getLast?.bind Reply.entry?

/-- What is shown is kept, unless it is removed at once. -/
def keep (kept : List String) : Reply → List String
  | .entry found => kept ++ found.toList
  | .removed (.ok _) => kept.dropLast
  | .removed (.error _) => kept

def kept (past : List Reply) : List String := past.foldl keep []

/-- The reply in a walk along `xs`, after those that it had before: the first entry that was not shown, or the one
that was just shown. -/
def reply (xs : List String) (past : List Reply) : Move → Reply
  | .next => .entry xs[(visited past).length]?
  | .remove => .removed (match current? past with
    | some x => .ok x
    | none => .error .noCurrentElement)

/-- All replies in a walk along `xs` that goes on. -/
def replies (xs : List String) (past : List Reply) : List Move → List Reply
  | [] => past
  | m :: moves => replies xs (past ++ [reply xs past m]) moves

/-- What is left of `xs` when a walk has had these replies. -/
def left (xs : List String) (past : List Reply) : List String := kept past ++ xs.drop (visited past).length

@[simp] theorem visited_snoc (past : List Reply) (a : Reply) : visited (past ++ [a]) = visited past ++ a.entry?.toList := by
  cases h : a.entry? <;> simp [visited, h]

@[simp] theorem current?_snoc (past : List Reply) (a : Reply) : current? (past ++ [a]) = a.entry? := by simp [current?]

@[simp] theorem kept_snoc (past : List Reply) (a : Reply) : kept (past ++ [a]) = keep (kept past) a := by
  rw [kept, List.foldl_append]
  rfl

variable {c : Cursor} {xs : List String} {past : List Reply}

/-- The cursor of a walk along `xs` that had these replies. -/
structure Follows (xs : List String) (past : List Reply) (c : Cursor) : Prop where
  holds : c.ring.Holds (left xs past)
  offset_eq : c.offset = (kept past).length
  last_eq : c.last = (current? past).map fun _ => (kept past).length - 1
  current : ∀ x, current? past = some x → ∃ before, kept past = before ++ [x]

theorem follows_start {r : Ring} (h : r.Holds xs) : Follows xs [] (start r) := ⟨h, rfl, rfl, nofun⟩

theorem Follows.next (h : Follows xs past c) :
    Follows xs (past ++ [reply xs past .next]) c.next.2 ∧ Reply.entry c.next.1 = reply xs past .next := by
  have hcount : c.ring.count = (kept past).length + (xs.length - (visited past).length) := by
    simp [h.holds.count_eq, left]
  rw [Cursor.next, reply]
  by_cases hend : c.ring.count ≤ c.offset
  · have hnone : xs[(visited past).length]? = none := by
      rw [h.offset_eq] at hend
      exact List.getElem?_eq_none (by omega)
    rw [if_pos hend, hnone]
    refine ⟨⟨?_, ?_, ?_, ?_⟩, rfl⟩
    · simpa [left, keep, Reply.entry?] using h.holds
    · simpa [keep] using h.offset_eq
    · simp [Reply.entry?]
    · simp [Reply.entry?]
  · have hlt : (visited past).length < xs.length := by
      rw [h.offset_eq] at hend
      omega
    have hdrop : xs.drop (visited past).length = xs[(visited past).length] :: xs.drop ((visited past).length + 1) :=
      List.drop_eq_getElem_cons hlt
    have hslot : c.ring.slot (c.ring.place c.offset) = some xs[(visited past).length] := by
      have hfits := h.holds.fits
      rw [h.holds.slot_place, h.offset_eq, left, hdrop, List.getElem?_append_right (Nat.le_refl _), Nat.sub_self]
      · rfl
      · have := h.holds.count_eq
        omega
    rw [if_neg hend, hslot, List.getElem?_eq_getElem hlt]
    refine ⟨⟨?_, ?_, ?_, ?_⟩, rfl⟩
    · have hholds := h.holds
      rw [left, hdrop] at hholds
      simpa [left, keep, Reply.entry?] using hholds
    · simp [keep, h.offset_eq]
    · simp [keep, Reply.entry?, h.offset_eq]
    · intro x hx
      exact ⟨kept past, by simpa [keep, Reply.entry?] using hx⟩

theorem Follows.remove (h : Follows xs past c) :
    Follows xs (past ++ [reply xs past .remove]) c.remove.2 ∧ Reply.removed c.remove.1 = reply xs past .remove := by
  have hlast := h.last_eq
  rw [Cursor.remove, reply]
  cases hcurrent : current? past with
  | none =>
    rw [hcurrent, Option.map_none] at hlast
    rw [hlast]
    refine ⟨⟨?_, ?_, ?_, ?_⟩, rfl⟩
    · simpa [left, keep, Reply.entry?] using h.holds
    · simpa [keep] using h.offset_eq
    · simpa [Reply.entry?] using hlast
    · simp [Reply.entry?]
  | some x =>
    obtain ⟨before, hkept⟩ := h.current x hcurrent
    have hoffset : c.last = some before.length := by simp [hlast, hcurrent, hkept]
    have hholds := h.holds
    rw [left, hkept, List.append_assoc, List.singleton_append] at hholds
    obtain ⟨hfound, hrest⟩ := Ring.removeAt_holds hholds
    rw [hoffset]
    rcases hremoved : c.ring.removeAt before.length with ⟨found, ring⟩
    rw [hremoved] at hfound hrest
    obtain rfl : found = some x := hfound
    refine ⟨⟨?_, ?_, ?_, ?_⟩, by simp [hremoved]⟩
    · simpa [hremoved, left, keep, Reply.entry?, hkept] using hrest
    · simp [hremoved, keep, hkept]
    · simp [hremoved, Reply.entry?]
    · simp [Reply.entry?]

theorem Follows.move (h : Follows xs past c) (m : Move) :
    Follows xs (past ++ [reply xs past m]) (c.move m).2 ∧ (c.move m).1 = reply xs past m := by
  cases m with
  | next => exact h.next
  | remove => exact h.remove

/-- The replies of a whole walk are those that its list tells. -/
theorem Follows.walk (h : Follows xs past c) (moves : List Move) :
    Follows xs (replies xs past moves) (c.walk moves).2 ∧ past ++ (c.walk moves).1 = replies xs past moves := by
  induction moves generalizing past c with
  | nil => exact ⟨h, List.append_nil past⟩
  | cons m moves ih =>
    obtain ⟨hnext, hreply⟩ := h.move m
    obtain ⟨hend, hall⟩ := ih hnext
    refine ⟨hend, ?_⟩
    rw [Cursor.walk, replies, ← hall, hreply, List.append_assoc, List.singleton_append]

theorem visited_replies (moves : List Move) (h : visited past <+: xs) : visited (replies xs past moves) <+: xs := by
  induction moves generalizing past with
  | nil => exact h
  | cons m moves ih =>
    refine ih ?_
    rw [visited_snoc]
    cases m with
    | remove => simpa [reply, Reply.entry?] using h
    | next =>
      cases hx : xs[(visited past).length]? with
      | none => simpa [reply, Reply.entry?, hx] using h
      | some x =>
        obtain ⟨rest, rfl⟩ := h
        cases rest with
        | nil => simp at hx
        | cons y rest => simp_all [reply, Reply.entry?]

end Cursor
end BatchJob.Queue
