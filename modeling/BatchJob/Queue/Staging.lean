import BatchJob.Files
import BatchJob.Queue.Spill

/-! Where a job keeps identifiers between its source and its workers: in a ring, or in a queue that
spills to a file. -/
namespace BatchJob.Queue

inductive Staging where
  | ring (r : Ring)
  | spill (q : Spill)
  deriving Repr

/-- What keeps a spilling queue from being built, if anything. -/
def Spill.problem? (maxInMemory : Nat) (dir : Option String) (fs : Files) : Option String :=
  if maxInMemory = 0 then some "max in-memory entries must be greater than 0"
  else
    match dir with
    | none =>
      if fs.hasTempDir then none
      else some ("spill directory " ++ fs.tempDir ++ " is not accessible: " ++ Files.Fault.missing.message)
    | some path =>
      match fs.open? path with
      | .error .isDirectory => none
      | .error fault => some ("spill directory " ++ path ++ " is not accessible: " ++ fault.message)
      | .ok _ => some ("spill location " ++ path ++ " is not a directory")

namespace Staging

def build (spillToDisk : Bool) (maxInMemory : Nat) (dir : Option String) (fs : Files) :
    Except QueueError Staging :=
  if spillToDisk then
    match Spill.problem? maxInMemory dir fs with
    | some problem => .error (.configuration problem)
    | none => .ok (spill (.empty maxInMemory))
  else .ok (ring (.empty maxInMemory))

def length : Staging → Nat
  | ring r => r.count
  | spill q => q.length

def isEmpty (s : Staging) : Bool := s.length = 0

def isFull : Staging → Bool
  | ring r => r.isFull
  | spill _ => false

def isOpen : Staging → Bool
  | ring _ => false
  | spill q => q.store.isSome

/-- Also tells whether the entry was taken. -/
def offer (s : Staging) (entry : String) (disk : Disk) : Except QueueError Bool × Staging :=
  match s with
  | ring r =>
    let (result, r) := r.offer entry
    (result, ring r)
  | spill q =>
    let (result, q) := q.offer entry disk
    (result.map fun _ => true, spill q)

def poll (s : Staging) (disk : Disk) : Except QueueError (Option String) × Staging :=
  match s with
  | ring r =>
    let (entry, r) := r.poll
    (.ok entry, ring r)
  | spill q =>
    let (result, q) := q.poll disk
    (result, spill q)

def close (s : Staging) (disk : Disk) : Except QueueError Bool × Staging :=
  match s with
  | ring r => (.ok false, ring r)
  | spill q =>
    let (result, q) := q.close disk
    (result, spill q)

end Staging

/-- The file behind a queue among all files. It is known by its path only: if the path leads nowhere
any more, the file cannot be deleted, even where it is still there. -/
structure Backing where
  dir : Option String
  path : Option String
  deriving DecidableEq, Repr

namespace Backing

def ofDir (dir : Option String) : Backing := ⟨dir, none⟩

/-- No two files of all time have the same name. -/
def fileName (fs : Files) : String :=
  "spillover-backingstore-" ++ String.ofList (Text.padded 6 fs.documents.length) ++ ".jsonl"

def newPath? (b : Backing) (fs : Files) : Option String := b.dir.map fun dir => Files.under dir (fileName fs)

def disk (b : Backing) (fs : Files) : Disk :=
  ⟨(b.newPath? fs).all fun path => (fs.place? path).toOption.isSome,
    b.path.all fun path => (fs.open? path).toOption.isSome⟩

/-- The file comes when the queue has one and goes when it has none. -/
def keep (b : Backing) (isOpen : Bool) (fs : Files) : Backing × Files :=
  match isOpen, b.path with
  | true, none =>
    match b.newPath? fs with
    | some path => ({ b with path := some path }, fs.write path [])
    | none => (b, fs)
  | false, some path => ({ b with path := none }, fs.remove path)
  | _, _ => (b, fs)

end Backing
end BatchJob.Queue
