import BatchJob.Proofs.Queue.Walk

/-! A ring is a list of bounded length. Whatever is asked of it, it answers as the list does, and holds the list in
consecutive slots from the oldest entry on. It never looks for a slot that there is not, nor for a place in a ring
without slots. -/
namespace BatchJob.Queue

namespace Ring

inductive Request where
  | offer (entry : String)
  | poll
  | peek
  | clear
  | walk (moves : List Cursor.Move)
  deriving DecidableEq, Repr

inductive Response where
  | offered (result : Except QueueError Bool)
  | taken (entry : Option String)
  | shown (entry : Option String)
  | cleared
  | walked (replies : List Cursor.Reply)

def handle (r : Ring) : Request → Response × Ring
  | .offer entry => (.offered (r.offer entry).1, (r.offer entry).2)
  | .poll => (.taken r.poll.1, r.poll.2)
  | .peek => (.shown r.peek, r)
  | .clear => (.cleared, r.clear)
  | .walk moves => (.walked ((Cursor.start r).walk moves).1, ((Cursor.start r).walk moves).2.ring)

def handleAll (r : Ring) : List Request → List Response × Ring
  | [] => ([], r)
  | q :: requests => ((r.handle q).1 :: ((r.handle q).2.handleAll requests).1, ((r.handle q).2.handleAll requests).2)

/-- What a list of at most `capacity` entries answers, and what becomes of it. -/
def listed (capacity : Nat) (xs : List String) : Request → Response × List String
  | .offer entry =>
    if entry = "" then (.offered (.error .emptyEntry), xs)
    else if xs.length < capacity then (.offered (.ok true), xs ++ [entry])
    else (.offered (.ok false), xs)
  | .poll => (.taken xs.head?, xs.tail)
  | .peek => (.shown xs.head?, xs)
  | .clear => (.cleared, [])
  | .walk moves => (.walked (Cursor.replies xs [] moves), Cursor.left xs (Cursor.replies xs [] moves))

def listedAll (capacity : Nat) (xs : List String) : List Request → List Response × List String
  | [] => ([], xs)
  | q :: requests =>
    ((listed capacity xs q).1 :: (listedAll capacity (listed capacity xs q).2 requests).1,
      (listedAll capacity (listed capacity xs q).2 requests).2)

variable {r : Ring} {xs : List String}

theorem capacity_move (c : Cursor) (m : Cursor.Move) : (c.move m).2.ring.capacity = c.ring.capacity := by
  cases m with
  | next =>
    rw [Cursor.move, Cursor.next]
    split <;> rfl
  | remove =>
    rw [Cursor.move, Cursor.remove]
    split
    · rfl
    · rename_i offset _
      have hcap := capacity_removeAt c.ring offset
      split <;> simp_all

@[simp] theorem capacity_walk (c : Cursor) (moves : List Cursor.Move) :
    (c.walk moves).2.ring.capacity = c.ring.capacity := by
  induction moves generalizing c with
  | nil => rfl
  | cons m moves ih => rw [Cursor.walk, ih, capacity_move]

theorem handle_listed (h : r.Holds xs) (q : Request) :
    (r.handle q).1 = (listed r.capacity xs q).1 ∧ (r.handle q).2.Holds (listed r.capacity xs q).2 ∧
      (r.handle q).2.capacity = r.capacity := by
  cases q with
  | offer entry =>
    rw [handle, listed]
    by_cases hblank : entry = ""
    · simp [offer, hblank, h]
    · rw [if_neg hblank]
      by_cases hroom : xs.length < r.capacity
      · obtain ⟨hok, hholds, hcap⟩ := offer_of_room h hblank hroom
        rw [if_pos hroom, hok]
        exact ⟨rfl, hholds, hcap⟩
      · rw [if_neg hroom, offer_of_full h hblank (Nat.le_antisymm h.fits (Nat.le_of_not_lt hroom))]
        exact ⟨rfl, h, rfl⟩
  | poll =>
    cases xs with
    | nil =>
      rw [handle, poll_nil h]
      exact ⟨rfl, h, rfl⟩
    | cons x xs =>
      obtain ⟨hfound, hholds, hcap⟩ := poll_cons h
      rw [handle, hfound]
      exact ⟨rfl, hholds, hcap⟩
  | peek =>
    rw [handle, peek_eq h]
    exact ⟨rfl, h, rfl⟩
  | clear => exact ⟨rfl, holds_empty r.capacity, capacity_empty r.capacity⟩
  | walk moves =>
    obtain ⟨hend, hreplies⟩ := (Cursor.follows_start h).walk moves
    rw [handle, listed, ← hreplies, List.nil_append]
    rw [← hreplies, List.nil_append] at hend
    exact ⟨rfl, hend.holds, capacity_walk _ moves⟩

theorem handleAll_listed (h : r.Holds xs) (requests : List Request) :
    (r.handleAll requests).1 = (listedAll r.capacity xs requests).1 ∧
      (r.handleAll requests).2.Holds (listedAll r.capacity xs requests).2 ∧
      (r.handleAll requests).2.capacity = r.capacity := by
  induction requests generalizing r xs with
  | nil => exact ⟨rfl, h, rfl⟩
  | cons q requests ih =>
    obtain ⟨hresponse, hholds, hcap⟩ := handle_listed h q
    obtain ⟨hresponses, hend, hsame⟩ := ih hholds
    rw [hcap] at hresponses hend hsame
    rw [handleAll, listedAll]
    exact ⟨by rw [hresponse, hresponses], hend, hsame⟩

/-! The same operations once more, slot by slot. Each gives no result as soon as it asks for a slot beyond the last one,
or for a place in a ring without slots. -/

def read? (r : Ring) (i : Nat) : Option (Option String) := r.slots[i]?

def write? (r : Ring) (i : Nat) (entry : Option String) : Option Ring :=
  if i < r.capacity then some { r with slots := r.slots.set i entry } else none

def place? (r : Ring) (offset : Nat) : Option Nat := if r.capacity = 0 then none else some (r.place offset)

/-- What is in a slot, which is free afterwards. -/
def empty? (r : Ring) (i : Nat) : Option (Option String × Ring) := do
  let entry ← r.read? i
  return (entry, ← r.write? i none)

def offer? (r : Ring) (entry : String) : Option (Except QueueError Bool × Ring) :=
  if entry = "" then some (.error .emptyEntry, r)
  else if r.isFull then some (.ok false, r)
  else do
    let q ← r.write? r.putAt (some entry)
    return (.ok true, { q with putAt := r.after r.putAt, count := r.count + 1 })

def poll? (r : Ring) : Option (Option String × Ring) :=
  if r.count = 0 then some (none, r)
  else do
    let (entry, q) ← r.empty? r.takeAt
    return (entry, { q with takeAt := r.after r.takeAt, count := r.count - 1 })

def peek? (r : Ring) : Option (Option String) := if r.count = 0 then some none else r.read? r.takeAt

/-- Takes one entry after another, until there is none. -/
def drain? : Nat → Ring → Option Ring
  | 0, r => some r
  | n + 1, r => do
    let (entry, q) ← r.poll?
    match entry with
    | none => return q
    | some _ => drain? n q

def clear? (r : Ring) : Option Ring := do
  let q ← drain? (r.count + 1) r
  return { q with takeAt := 0, putAt := 0 }

def slide? : (n i : Nat) → Ring → Option (Nat × Ring)
  | 0, i, r => some (i, r)
  | n + 1, i, r => do
    let (entry, q) ← r.empty? (r.after i)
    slide? n (r.after i) (← q.write? i entry)

def removeAt? (r : Ring) (offset : Nat) : Option (Option String × Ring) := do
  let i ← r.place? offset
  let (entry, q) ← r.empty? i
  let (last, slid) ← slide? (r.count - (offset + 1)) i q
  return (entry, { slid with putAt := last, count := r.count - 1 })

end Ring

namespace Cursor

def next? (c : Cursor) : Option (Option String × Cursor) :=
  if c.ring.count ≤ c.offset then some (none, { c with last := none })
  else do
    let entry ← c.ring.read? (← c.ring.place? c.offset)
    return (entry, { c with offset := c.offset + 1, last := some c.offset })

def remove? (c : Cursor) : Option (Except QueueError String × Cursor) :=
  match c.last with
  | none => some (.error .noCurrentElement, c)
  | some offset => do
    match ← c.ring.removeAt? offset with
    | (none, ring) => return (.error .noCurrentElement, { c with ring := ring, last := none })
    | (some entry, ring) => return (.ok entry, ⟨ring, offset, none⟩)

def move? (c : Cursor) : Move → Option (Reply × Cursor)
  | .next => c.next?.map fun found => (.entry found.1, found.2)
  | .remove => c.remove?.map fun removed => (.removed removed.1, removed.2)

def walk? (c : Cursor) : List Move → Option (List Reply × Cursor)
  | [] => some ([], c)
  | m :: moves => do
    let (reply, c) ← c.move? m
    let (replies, c) ← c.walk? moves
    return (reply :: replies, c)

end Cursor

namespace Ring

def handle? (r : Ring) : Request → Option (Response × Ring)
  | .offer entry => (r.offer? entry).map fun offered => (.offered offered.1, offered.2)
  | .poll => r.poll?.map fun taken => (.taken taken.1, taken.2)
  | .peek => r.peek?.map fun shown => (.shown shown, r)
  | .clear => r.clear?.map fun q => (.cleared, q)
  | .walk moves => ((Cursor.start r).walk? moves).map fun walked => (.walked walked.1, walked.2.ring)

def handleAll? (r : Ring) : List Request → Option (List Response × Ring)
  | [] => some ([], r)
  | q :: requests => do
    let (response, r) ← r.handle? q
    let (responses, r) ← r.handleAll? requests
    return (response :: responses, r)

variable {r : Ring} {xs before after : List String} {x : String} {i k : Nat}

theorem read?_eq (hi : i < r.capacity) : r.read? i = some (r.slot i) := by
  have hlt : i < r.slots.length := hi
  simp [read?, slot, hlt]

theorem write?_eq (hi : i < r.capacity) (entry : Option String) :
    r.write? i entry = some { r with slots := r.slots.set i entry } := if_pos hi

theorem place?_eq (hpos : 0 < r.capacity) (k : Nat) : r.place? k = some (r.place k) := if_neg (Nat.ne_of_gt hpos)

theorem empty?_eq (hi : i < r.capacity) : r.empty? i = some (r.slot i, r.free i) := by
  simp [empty?, read?_eq hi, write?_eq hi, free]

theorem Holds.putAt_lt (h : r.Holds xs) (hpos : 0 < r.capacity) : r.putAt < r.capacity :=
  h.putAt_eq hpos ▸ place_lt hpos _

theorem offer?_eq (h : r.Holds xs) (entry : String) : r.offer? entry = some (r.offer entry) := by
  rw [offer?, offer]
  split_ifs with hblank hfull
  · rfl
  · rfl
  · have hcount : r.count ≠ r.capacity := by simpa [isFull] using hfull
    have hpos : 0 < r.capacity := by
      have := h.fits
      have := h.count_eq
      omega
    rw [write?_eq (h.putAt_lt hpos)]
    rfl

theorem poll?_eq (h : r.Holds xs) : r.poll? = some r.poll := by
  rw [poll?, poll]
  split_ifs with hzero
  · rfl
  · have hpos : 0 < r.capacity := by
      have := h.fits
      have := h.count_eq
      omega
    rw [empty?_eq (h.takeAt_lt hpos)]
    rfl

theorem peek?_eq (h : r.Holds xs) : r.peek? = some r.peek := by
  rw [peek?, peek]
  split_ifs with hzero
  · rfl
  · have hpos : 0 < r.capacity := by
      have := h.fits
      have := h.count_eq
      omega
    rw [read?_eq (h.takeAt_lt hpos)]

theorem drain?_eq (h : r.Holds xs) :
    ∃ q, drain? (xs.length + 1) r = some q ∧ q.Holds [] ∧ q.capacity = r.capacity := by
  induction xs generalizing r with
  | nil => exact ⟨r, by simp [drain?, poll?_eq h, poll_nil h], h, rfl⟩
  | cons x xs ih =>
    obtain ⟨hfound, hholds, hcap⟩ := poll_cons h
    obtain ⟨q, hdrain, hnil, hsame⟩ := ih hholds
    refine ⟨q, ?_, hnil, hsame.trans hcap⟩
    rw [List.length_cons, drain?, poll?_eq h]
    simp [hfound, hdrain]

theorem exists_place (ht : r.takeAt < r.capacity) (hi : i < r.capacity) : ∃ k < r.capacity, r.place k = i := by
  by_cases hle : r.takeAt ≤ i
  · refine ⟨i - r.takeAt, by omega, ?_⟩
    rw [place_eq ht (by omega), if_pos (by omega)]
    omega
  · refine ⟨i + r.capacity - r.takeAt, by omega, ?_⟩
    rw [place_eq ht (by omega), if_neg (by omega)]
    omega

theorem slots_of_holds_nil (h : r.Holds []) : r.slots = List.replicate r.capacity none := by
  refine List.eq_replicate_iff.mpr ⟨rfl, fun entry hentry => ?_⟩
  obtain ⟨i, hi, rfl⟩ := List.getElem_of_mem hentry
  have hcap : i < r.capacity := hi
  obtain ⟨k, hk, rfl⟩ := exists_place (h.takeAt_lt (Nat.zero_lt_of_lt hcap)) hcap
  have hslot := h.slot_place k hk
  simpa [slot, hi] using hslot

/-- Taking all entries out one by one comes to the same as setting up all slots anew. -/
theorem clear?_eq (h : r.Holds xs) : r.clear? = some r.clear := by
  obtain ⟨q, hdrain, hnil, hcap⟩ := drain?_eq h
  have hslots := slots_of_holds_nil hnil
  have hcount : q.count = 0 := hnil.count_eq
  rw [clear?, h.count_eq, hdrain, clear, empty, ← hcap]
  simp [hslots, hcount]

theorem slide?_eq (n : Nat) (ht : r.takeAt < r.capacity) (hk : k + n < r.capacity) :
    slide? n (r.place k) r = some (slide n (r.place k) r) := by
  induction n generalizing r k with
  | zero => rfl
  | succ n ih =>
    have hpos : 0 < r.capacity := Nat.zero_lt_of_lt ht
    have hnext : r.after (r.place k) = r.place (k + 1) := after_place ht (by omega)
    have hne : r.place (k + 1) ≠ r.place k := fun he => by
      have := place_injective ht (by omega) (by omega) he
      omega
    have hshift : ({ r.free (r.place (k + 1)) with
        slots := (r.free (r.place (k + 1))).slots.set (r.place k) (r.slot (r.place (k + 1))) } : Ring) =
          r.shift (r.place k) := by
      simp only [free, shift, hnext]
      rw [List.set_comm _ _ hne]
    rw [slide?, hnext, empty?_eq (place_lt hpos _)]
    simp only [Option.bind_eq_bind, Option.bind_some]
    rw [write?_eq (by rw [capacity_free]; exact place_lt hpos k), Option.bind_some, hshift, slide_succ, hnext,
      ← place_shift r (r.place k) (k + 1)]
    refine ih ?_ ?_
    · rw [capacity_shift]
      exact ht
    · rw [capacity_shift]
      omega

theorem removeAt?_eq (h : r.Holds (before ++ x :: after)) :
    r.removeAt? before.length = some (r.removeAt before.length) := by
  have hfits := h.fits
  have hcount := h.count_eq
  simp only [List.length_append, List.length_cons] at hfits hcount
  have hpos : 0 < r.capacity := by omega
  have hslide := slide?_eq (r := r.free (r.place before.length)) (k := before.length)
    (r.count - (before.length + 1)) (by rw [capacity_free]; exact h.takeAt_lt hpos) (by rw [capacity_free]; omega)
  rw [place_free] at hslide
  rw [removeAt?, place?_eq hpos]
  simp only [Option.bind_eq_bind, Option.bind_some, empty?_eq (place_lt hpos _), hslide]
  rfl

end Ring

namespace Cursor
variable {c : Cursor} {xs : List String} {past : List Reply}

theorem Follows.next?_eq (h : Follows xs past c) : c.next? = some c.next := by
  rw [Cursor.next?, Cursor.next]
  split_ifs with hend
  · rfl
  · have hpos : 0 < c.ring.capacity := by
      have := h.holds.fits
      have := h.holds.count_eq
      omega
    rw [Ring.place?_eq hpos]
    simp only [Option.bind_eq_bind, Option.bind_some, Ring.read?_eq (Ring.place_lt hpos _)]
    rfl

theorem Follows.remove?_eq (h : Follows xs past c) : c.remove? = some c.remove := by
  rw [Cursor.remove?, Cursor.remove]
  cases hcurrent : current? past with
  | none =>
    have hlast : c.last = none := by simp [h.last_eq, hcurrent]
    rw [hlast]
  | some x =>
    obtain ⟨before, hkept⟩ := h.current x hcurrent
    have hlast : c.last = some before.length := by simp [h.last_eq, hcurrent, hkept]
    have hholds := h.holds
    rw [left, hkept, List.append_assoc, List.singleton_append] at hholds
    rw [hlast]
    simp only [Ring.removeAt?_eq hholds, Option.bind_eq_bind, Option.bind_some]
    rcases c.ring.removeAt before.length with ⟨_ | _, ring⟩ <;> rfl

theorem Follows.walk?_eq (h : Follows xs past c) (moves : List Move) : c.walk? moves = some (c.walk moves) := by
  induction moves generalizing past c with
  | nil => rfl
  | cons m moves ih =>
    have hmove : c.move? m = some (c.move m) := by
      cases m with
      | next => rw [move?, h.next?_eq, Option.map_some, Cursor.move]
      | remove => rw [move?, h.remove?_eq, Option.map_some, Cursor.move]
    simp [walk?, hmove, ih (h.move m).1, Cursor.walk]

end Cursor

namespace Ring
variable {r : Ring} {xs : List String}

theorem handle?_eq (h : r.Holds xs) (q : Request) : r.handle? q = some (r.handle q) := by
  cases q with
  | offer entry => rw [handle?, offer?_eq h, Option.map_some, handle]
  | poll => rw [handle?, poll?_eq h, Option.map_some, handle]
  | peek => rw [handle?, peek?_eq h, Option.map_some, handle]
  | clear => rw [handle?, clear?_eq h, Option.map_some, handle]
  | walk moves => rw [handle?, (Cursor.follows_start h).walk?_eq, Option.map_some, handle]

theorem handleAll?_eq (h : r.Holds xs) (requests : List Request) :
    r.handleAll? requests = some (r.handleAll requests) := by
  induction requests generalizing r xs with
  | nil => rfl
  | cons q requests ih => simp [handleAll?, handle?_eq h, ih (handle_listed h q).2.1, handleAll]

/-- The ring has the list in the slots from the oldest entry on, and nothing in the others. -/
structure Lists (capacity : Nat) (r : Ring) (xs : List String) : Prop where
  toList : r.toList = xs
  count : r.count = xs.length
  fits : xs.length ≤ capacity
  occupied : ∀ k < capacity, r.slot ((r.takeAt + k) % capacity) = xs[k]?
  putAt : 0 < capacity → r.putAt = (r.takeAt + xs.length) % capacity

/-- However far a walk along the ring has come, its replies so far tell what it will show next and what it can
remove, and which entries are left. -/
structure Walks (r : Ring) (xs : List String) : Prop where
  next : ∀ moves, ((Cursor.start r).walk moves).2.next.1 =
    xs[(Cursor.visited ((Cursor.start r).walk moves).1).length]?
  in_order : ∀ moves, Cursor.visited ((Cursor.start r).walk moves).1 <+: xs
  remove : ∀ moves, ((Cursor.start r).walk moves).2.remove.1 =
    match Cursor.current? ((Cursor.start r).walk moves).1 with
    | some x => .ok x
    | none => .error .noCurrentElement
  left : ∀ moves, ((Cursor.start r).walk moves).2.ring.toList = Cursor.left xs ((Cursor.start r).walk moves).1

theorem Holds.lists (h : r.Holds xs) : r.Lists r.capacity xs :=
  ⟨toList_eq h, h.count_eq, h.fits, h.slot_place, h.putAt_eq⟩

theorem Holds.walks (h : r.Holds xs) : r.Walks xs := by
  have hwalk : ∀ moves, Cursor.Follows xs ((Cursor.start r).walk moves).1 ((Cursor.start r).walk moves).2 := by
    intro moves
    obtain ⟨hend, hreplies⟩ := (Cursor.follows_start h).walk moves
    rwa [← hreplies, List.nil_append] at hend
  refine ⟨fun moves => ?_, fun moves => ?_, fun moves => ?_, fun moves => toList_eq (hwalk moves).holds⟩
  · exact Cursor.Reply.entry.inj (hwalk moves).next.2
  · have hreplies := ((Cursor.follows_start h).walk moves).2
    rw [List.nil_append] at hreplies
    rw [hreplies]
    exact Cursor.visited_replies moves (List.nil_prefix)
  · exact Cursor.Reply.removed.inj (hwalk moves).remove.2

/-- A ring of any capacity answers every sequence of requests as a list of bounded length does, and holds that list at
the end. Every walk along it meets each entry of the list once. No request asks for a slot that there is not. -/
theorem bounded_handleAll (capacity : Nat) (requests : List Request) :
    ((empty capacity).handleAll requests).1 = (listedAll capacity [] requests).1 ∧
      Lists capacity ((empty capacity).handleAll requests).2 (listedAll capacity [] requests).2 ∧
      Walks ((empty capacity).handleAll requests).2 (listedAll capacity [] requests).2 ∧
      (empty capacity).handleAll? requests = some ((empty capacity).handleAll requests) := by
  obtain ⟨hresponses, hholds, hcap⟩ := handleAll_listed (holds_empty capacity) requests
  rw [capacity_empty] at hresponses hholds hcap
  have hlists := hholds.lists
  rw [hcap] at hlists
  exact ⟨hresponses, hlists, hholds.walks, handleAll?_eq (holds_empty capacity) requests⟩

/-- The last entry stands before the first slot and the walk goes round; the entry in the middle is removed. -/
example : ((empty 3).handleAll [.offer "a", .offer "b", .offer "c", .poll, .offer "d",
    .walk [.next, .next, .remove, .remove, .next]]).2 = ⟨[none, some "b", some "d"], 1, 0, 2⟩ := by decide

end Ring
end BatchJob.Queue
