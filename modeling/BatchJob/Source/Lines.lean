import BatchJob.Files
import BatchJob.Text.Basic

/-! The identifiers in a file: one to a line, without the blanks around it; blank lines do not
count. The file is read bit by bit, so it may change under the reader. -/
namespace BatchJob

/-- Reads a document from `offset` on; `buffer` holds what was fetched before and not yet used. -/
structure LineReader where
  document : Nat
  offset : Nat
  buffer : List UInt8
  deriving DecidableEq, Repr

namespace LineReader

def chunk : Nat := 8192

def lineBreak : UInt8 := 10

/-- The identifier in a line, empty for a blank line, or `none` when the bytes spell no text. -/
def identifier? (line : List UInt8) : Option String := (Files.text? line).map Text.trim

/-- The first identifier in some bytes, and how many of them it takes to find it. `seen` holds the
line so far, last byte first, and `used` counts the bytes before. -/
def scan (seen : List UInt8) (used : Nat) : List UInt8 → Except Files.Fault (Option String) × Nat
  | [] =>
    match identifier? seen.reverse with
    | none => (.error .notText, used)
    | some id => (.ok (if id = "" then none else some id), used)
  | b :: bs =>
    if b = lineBreak then
      match identifier? seen.reverse with
      | none => (.error .notText, used + 1)
      | some id => if id = "" then scan [] (used + 1) bs else (.ok (some id), used + 1)
    else scan (b :: seen) (used + 1) bs

/-- All that the reader can see of a document. -/
def visible (r : LineReader) (content : List UInt8) : List UInt8 :=
  r.buffer ++ content.drop r.offset

def use (r : LineReader) (content : List UInt8) (used : Nat) : LineReader :=
  let chunks := (used - r.buffer.length + (chunk - 1)) / chunk
  let fetched := (content.drop r.offset).take (chunk * chunks)
  { r with offset := r.offset + fetched.length, buffer := (r.buffer ++ fetched).drop used }

/-- A line that is no text is passed over by the error it causes. -/
def next (r : LineReader) (content : List UInt8) :
    Except Files.Fault (Option String) × LineReader :=
  let (result, used) := scan [] 0 (r.visible content)
  (result, r.use content used)

end LineReader

/-- `total` is the number of identifiers found when the file was opened. -/
structure LineSource where
  path : String
  total : Nat
  reader : Option LineReader
  deriving DecidableEq, Repr

namespace LineSource

inductive Fault where
  | cannotOpen (path : String)
  | notOpen (path : String)
  | file (fault : Files.Fault)
  deriving DecidableEq, Repr

def Fault.message : Fault → String
  | cannotOpen path => "cannot open identifier file " ++ path
  | notOpen path => "identifier file " ++ path ++ " is not open"
  | file fault => fault.message

def ofPath (path : String) : LineSource := ⟨path, 0, none⟩

def count? (content : List UInt8) : Option Nat := do
  let identifiers ← (content.splitOn LineReader.lineBreak).mapM LineReader.identifier?
  return (identifiers.filter (· ≠ "")).length

/-- A failure leaves the total and the reader as they were. -/
def start (s : LineSource) (fs : Files) : Except Fault Unit × LineSource :=
  match fs.open? s.path with
  | .error .isDirectory => (.error (.file .isDirectory), s)
  | .error _ => (.error (.cannotOpen s.path), s)
  | .ok document =>
    match count? (fs.bytes document) with
    | none => (.error (.file .notText), s)
    | some total => (.ok (), { s with total := total, reader := some ⟨document, 0, []⟩ })

def next (s : LineSource) (fs : Files) : Except Fault (Option String) × LineSource :=
  match s.reader with
  | none => (.error (.notOpen s.path), s)
  | some reader =>
    match reader.next (fs.bytes reader.document) with
    | (.error e, reader) => (.error (.file e), { s with reader := some reader })
    | (.ok id, reader) => (.ok id, { s with reader := some reader })

def close (s : LineSource) : LineSource := { s with reader := none }

end LineSource
end BatchJob
