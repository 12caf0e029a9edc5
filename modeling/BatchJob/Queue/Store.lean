import BatchJob.Json.Reader
import BatchJob.Text.Basic

/-! The file behind a queue: a writer appends lines at its end and a reader takes them from its front.
What was appended reaches the reader only after a flush. An entry is written to its line as a string literal, which has
no line break. -/
namespace BatchJob.Queue

namespace Line

def encode (entry : String) : String := Json.quote entry

/-- Blanks around the literal do no harm; anything but a string is refused. -/
def decode (line : String) : Option String :=
  match Json.read line with
  | some (.str s) => s
  | _ => none

end Line

/-- `unread` is what the reader has not yet seen of the written text and `buffer` holds the lines
still to be written, newest first; `unflushed` tells whether there may be such lines. `pending` counts
the lines appended and not yet read. -/
structure Store where
  unread : List Char
  buffer : List (List Char)
  unflushed : Bool
  pending : Nat
  deriving DecidableEq, Repr

namespace Store

def create : Store := ⟨[], [], false, 0⟩

def append (s : Store) (line : String) : Store :=
  { s with
    buffer := (line.toList ++ ['\n']) :: s.buffer
    unflushed := true
    pending := s.pending + 1 }

def held (s : Store) : List Char := s.buffer.reverse.flatten

/-- All that was appended and not yet read. -/
def content (s : Store) : List Char := s.unread ++ s.held

def flush (s : Store) : Store := { s with unread := s.content, buffer := [], unflushed := false }

/-- A flush only where something was appended since the last one. -/
def caughtUp (s : Store) : Store := if s.unflushed then s.flush else s

def readLine (s : Store) : Option String × Store :=
  let s := s.caughtUp
  match Text.firstLine s.unread with
  | none => (none, { s with unread := [] })
  | some (line, rest) =>
    (some (String.ofList (Text.dropReturns line)), { s with unread := rest, pending := s.pending - 1 })

@[simp] theorem held_flush (s : Store) : s.flush.held = [] := rfl

@[simp] theorem pending_caughtUp (s : Store) : s.caughtUp.pending = s.pending := by
  unfold caughtUp
  split <;> rfl

@[simp] theorem pending_append (s : Store) (line : String) :
    (s.append line).pending = s.pending + 1 := rfl

@[simp] theorem content_append (s : Store) (line : String) :
    (s.append line).content = s.content ++ (line.toList ++ ['\n']) := by
  simp [append, content, held]

end Store
end BatchJob.Queue
