import BatchJob.Queue.Ring
import BatchJob.Queue.Store

/-! A queue without bound: its head is in memory and what does not fit there is in a file. -/
namespace BatchJob.Queue

/-- What the file system grants during an operation: that a file is created, and that the present
one is deleted. -/
structure Disk where
  creates : Bool
  deletes : Bool
  deriving DecidableEq, Repr

/-- Entries in `store` are younger than all entries in `memory`. -/
structure Spill where
  memory : Ring
  store : Option Store
  deriving DecidableEq, Repr

namespace Spill

def empty (maxInMemory : Nat) : Spill := ⟨.empty maxInMemory, none⟩

/-- With fewer entries in memory a poll first reads more of them from the file. -/
def refillBelow (q : Spill) : Nat := q.memory.capacity * 3 / 4

def spilled (q : Spill) : Nat := (q.store.map (·.pending)).getD 0

def length (q : Spill) : Nat := q.memory.count + q.spilled

def isEmpty (q : Spill) : Bool := q.length = 0

def createFailed : QueueError := .io "cannot create the backing file"

def deleteFailed : QueueError := .io "cannot delete the backing file"

def append (q : Spill) (entry : String) (disk : Disk) : Except QueueError Unit × Spill :=
  match q.store with
  | some store => (.ok (), { q with store := some (store.append (Line.encode entry)) })
  | none =>
    if disk.creates then
      (.ok (), { q with store := some (Store.create.append (Line.encode entry)) })
    else (.error createFailed, q)

/-- Memory takes the entry only while nothing waits in the file. -/
def offer (q : Spill) (entry : String) (disk : Disk) : Except QueueError Unit × Spill :=
  if entry = "" then (.error .emptyEntry, q)
  else if q.spilled = 0 ∧ !q.memory.isFull then
    (.ok (), { q with memory := (q.memory.offer entry).2 })
  else q.append entry disk

/-- Gives the file up with all that is in it; tells whether there was one. -/
def close (q : Spill) (disk : Disk) : Except QueueError Bool × Spill :=
  match q.store with
  | none => (.ok false, q)
  | some _ =>
    (if disk.deletes then .ok true else .error deleteFailed, { q with store := none })

/-- Closing for the sake of the space; only the failure matters. -/
def tidy (q : Spill) (disk : Disk) : Except QueueError Unit × Spill :=
  let (result, q) := q.close disk
  (result.map fun _ => (), q)

/-- One entry moves from the file to memory; the file goes with its last entry. -/
def refillOne (q : Spill) (store : Store) (disk : Disk) : Except QueueError Unit × Spill :=
  match store.readLine with
  | (none, store) => ({ q with store := some store } : Spill).tidy disk
  | (some line, store) =>
    match Line.decode line with
    | none => (.error (.codec "not an entry"), { q with store := some store })
    | some entry =>
      match q.memory.offer entry with
      | (.error e, _) => (.error e, { q with store := some store })
      | (.ok _, memory) =>
        let q : Spill := ⟨memory, some store⟩
        if store.pending = 0 then q.tidy disk else (.ok (), q)

def refill : (room : Nat) → Spill → Disk → Except QueueError Unit × Spill
  | 0, q, _ => (.ok (), q)
  | room + 1, q, disk =>
    match q.store with
    | none => (.ok (), q)
    | some store =>
      match q.refillOne store disk with
      | (.error e, q) => (.error e, q)
      | (.ok (), q) => refill room q disk

/-- The head leaves only after memory was filled up, so a failure leaves it in its place. -/
def poll (q : Spill) (disk : Disk) : Except QueueError (Option String) × Spill :=
  let filled := if q.memory.isEmpty ∨ q.memory.count < q.refillBelow then refill q.memory.room q disk
    else (.ok (), q)
  match filled with
  | (.error e, q) => (.error e, q)
  | (.ok (), q) =>
    let (entry, memory) := q.memory.poll
    (.ok entry, { q with memory := memory })

def peek (q : Spill) (disk : Disk) : Except QueueError (Option String) × Spill :=
  let filled := if q.memory.isEmpty then refill q.memory.room q disk else (.ok (), q)
  match filled with
  | (.error e, q) => (.error e, q)
  | (.ok (), q) => (.ok q.memory.peek, q)

def cursor (_ : Spill) : Except QueueError Cursor :=
  .error (.unsupported "iteration over a disk-backed queue")

end Spill
end BatchJob.Queue
