/-! A queue of bounded length in a ring of slots, and a cursor that walks along it and can remove
entries from its middle. -/
namespace BatchJob.Queue

/-- What queue operations can fail with. -/
inductive QueueError where
  | emptyEntry
  | configuration (text : String)
  | unsupported (operation : String)
  | noCurrentElement
  | io (text : String)
  | codec (text : String)
  deriving DecidableEq, Repr

def QueueError.message : QueueError → String
  | emptyEntry => "empty entries cannot be queued"
  | configuration text => "invalid queue configuration: " ++ text
  | unsupported operation => "unsupported queue operation: " ++ operation
  | noCurrentElement => "cursor has no current element to remove"
  | io text => "backing store I/O error: " ++ text
  | codec text => "backing store codec error: " ++ text

/-- `takeAt` is the slot of the oldest entry and `putAt` the slot for the next one. -/
structure Ring where
  slots : List (Option String)
  takeAt : Nat
  putAt : Nat
  count : Nat
  deriving DecidableEq, Repr

namespace Ring

def empty (capacity : Nat) : Ring := ⟨List.replicate capacity none, 0, 0, 0⟩

def capacity (r : Ring) : Nat := r.slots.length

def slot (r : Ring) (i : Nat) : Option String := (r.slots[i]?).join

def isFull (r : Ring) : Bool := r.count = r.capacity

def isEmpty (r : Ring) : Bool := r.count = 0

def room (r : Ring) : Nat := r.capacity - r.count

def after (r : Ring) (i : Nat) : Nat := if i + 1 = r.capacity then 0 else i + 1

def place (r : Ring) (offset : Nat) : Nat := (r.takeAt + offset) % r.capacity

def toList (r : Ring) : List String := (List.range r.count).filterMap fun k => r.slot (r.place k)

/-- A full ring refuses the entry with `false`. -/
def offer (r : Ring) (entry : String) : Except QueueError Bool × Ring :=
  if entry = "" then (.error .emptyEntry, r)
  else if r.isFull then (.ok false, r)
  else
    (.ok true,
      { r with slots := r.slots.set r.putAt (some entry), putAt := r.after r.putAt, count := r.count + 1 })

def poll (r : Ring) : Option String × Ring :=
  if r.count = 0 then (none, r)
  else
    (r.slot r.takeAt,
      { r with slots := r.slots.set r.takeAt none, takeAt := r.after r.takeAt, count := r.count - 1 })

def peek (r : Ring) : Option String := if r.count = 0 then none else r.slot r.takeAt

def clear (r : Ring) : Ring := empty r.capacity

/-- Moves the entries of the `n` slots after slot `i` one slot back; gives the slot left free. -/
def slide : (n i : Nat) → Ring → Nat × Ring
  | 0, i, r => (i, r)
  | n + 1, i, r =>
    let next := r.after i
    slide n next { r with slots := (r.slots.set i (r.slot next)).set next none }

/-- Takes out the entry at an offset; all later ones move up. -/
def removeAt (r : Ring) (offset : Nat) : Option String × Ring :=
  let i := r.place offset
  let (last, slid) := slide (r.count - (offset + 1)) i { r with slots := r.slots.set i none }
  (r.slot i, { slid with putAt := last, count := r.count - 1 })

@[simp] theorem capacity_empty (n : Nat) : (empty n).capacity = n := by simp [capacity, empty]

@[simp] theorem count_empty (n : Nat) : (empty n).count = 0 := rfl

end Ring

/-- `offset` is the next entry to visit and `last` the one visited last, as long as it can still be
removed. -/
structure Cursor where
  ring : Ring
  offset : Nat
  last : Option Nat
  deriving Repr

namespace Cursor

def start (r : Ring) : Cursor := ⟨r, 0, none⟩

def next (c : Cursor) : Option String × Cursor :=
  if c.ring.count ≤ c.offset then (none, { c with last := none })
  else
    (c.ring.slot (c.ring.place c.offset), { c with offset := c.offset + 1, last := some c.offset })

/-- Removes the entry visited last; the walk goes on with the one after it. -/
def remove (c : Cursor) : Except QueueError String × Cursor :=
  match c.last with
  | none => (.error .noCurrentElement, c)
  | some offset =>
    match c.ring.removeAt offset with
    | (none, ring) => (.error .noCurrentElement, { c with ring := ring, last := none })
    | (some entry, ring) => (.ok entry, ⟨ring, offset, none⟩)

end Cursor
end BatchJob.Queue
