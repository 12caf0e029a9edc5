import BatchJob.Json.Basic
import BatchJob.Json.Lexer

/-! Reading a JSON text. The reader keeps the open arrays and objects on a stack of its own, so a
text may nest as deeply as it likes. -/
namespace BatchJob.Json

/-- An open array or object with what it holds so far, newest first. -/
inductive Frame where
  | array (items : List Json)
  | object (fields : List (Option String × Json)) (key : Option String)

/-- What may come next. -/
inductive Reading where
  | value
  | firstValue
  | key
  | firstKey
  | colon
  | more
  | done (v : Json)

structure Reader where
  stack : List Frame
  state : Reading

namespace Reader

def start : Reader := ⟨[], .value⟩

/-- A complete value goes into the innermost open frame, or is the answer. -/
def place (v : Json) : List Frame → Reader
  | [] => ⟨[], .done v⟩
  | .array items :: rest => ⟨.array (v :: items) :: rest, .more⟩
  | .object fields key :: rest => ⟨.object ((key, v) :: fields) none :: rest, .more⟩

def openOrPlace? (stack : List Frame) : Token → Option Reader
  | .openArray => some ⟨.array [] :: stack, .firstValue⟩
  | .openObject => some ⟨.object [] none :: stack, .firstKey⟩
  | .null => some (place .null stack)
  | .bool b => some (place (.bool b) stack)
  | .nat n => some (place (.nat n) stack)
  | .number s => some (place (.number s) stack)
  | .str s => some (place (.str s) stack)
  | _ => none

def close? : List Frame → Token → Option Reader
  | .array items :: rest, .closeArray => some (place (.arr items.reverse) rest)
  | .object fields _ :: rest, .closeObject => some (place (.obj fields.reverse) rest)
  | _, _ => none

def key? : List Frame → Token → Option Reader
  | .object fields _ :: rest, .str key => some ⟨.object fields key :: rest, .colon⟩
  | _, _ => none

def step (r : Reader) (t : Token) : Option Reader :=
  match r.state with
  | .value => openOrPlace? r.stack t
  | .firstValue => close? r.stack t <|> openOrPlace? r.stack t
  | .key => key? r.stack t
  | .firstKey => close? r.stack t <|> key? r.stack t
  | .colon => if t = .colon then some ⟨r.stack, .value⟩ else none
  | .more =>
    match r.stack, t with
    | .array _ :: _, .comma => some ⟨r.stack, .value⟩
    | .object _ _ :: _, .comma => some ⟨r.stack, .key⟩
    | stack, t => close? stack t
  | .done _ => none

def result? (r : Reader) : Option Json :=
  match r.state with
  | .done v => some v
  | _ => none

end Reader

def readChars (cs : List Char) : Option Json := do
  let tokens ← lex cs
  let r ← tokens.foldlM Reader.step Reader.start
  r.result?

def read (s : String) : Option Json := readChars s.toList

end BatchJob.Json
