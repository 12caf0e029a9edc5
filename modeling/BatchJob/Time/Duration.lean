import BatchJob.Json.Shape

/-! Lengths of time in nanoseconds. A point in time is the length of time since the clock's origin. -/
namespace BatchJob

@[ext] structure Duration where
  nanos : Nat
  deriving DecidableEq, Repr, Inhabited

namespace Duration

def perSecond : Nat := 1000000000

def perMilli : Nat := 1000000

def zero : Duration := ⟨0⟩

def ofSeconds (s : Nat) : Duration := ⟨s * perSecond⟩

def ofMillis (ms : Nat) : Duration := ⟨ms * perMilli⟩

def ofParts (seconds nanos : Nat) : Duration := ⟨seconds * perSecond + nanos⟩

def seconds (d : Duration) : Nat := d.nanos / perSecond

def rest (d : Duration) : Nat := d.nanos % perSecond

/-- The machine tells a point in time by its seconds in 63 bits. -/
def isPoint (d : Duration) : Bool := d.seconds < Text.limit64 / 2

instance : Add Duration := ⟨fun a b => ⟨a.nanos + b.nanos⟩⟩

/-- A difference never goes below zero. -/
instance : Sub Duration := ⟨fun a b => ⟨a.nanos - b.nanos⟩⟩

instance : LE Duration := ⟨fun a b => a.nanos ≤ b.nanos⟩

instance : LT Duration := ⟨fun a b => a.nanos < b.nanos⟩

instance (a b : Duration) : Decidable (a ≤ b) := inferInstanceAs (Decidable (a.nanos ≤ b.nanos))

instance (a b : Duration) : Decidable (a < b) := inferInstanceAs (Decidable (a.nanos < b.nanos))

instance : Min Duration := minOfLe

instance : Max Duration := maxOfLe

@[simp] theorem nanos_add (a b : Duration) : (a + b).nanos = a.nanos + b.nanos := rfl

@[simp] theorem nanos_sub (a b : Duration) : (a - b).nanos = a.nanos - b.nanos := rfl

@[simp] theorem nanos_zero : zero.nanos = 0 := rfl

theorem le_iff {a b : Duration} : a ≤ b ↔ a.nanos ≤ b.nanos := Iff.rfl

theorem lt_iff {a b : Duration} : a < b ↔ a.nanos < b.nanos := Iff.rfl

theorem ofParts_seconds_rest (d : Duration) : ofParts d.seconds d.rest = d := by
  ext
  simp [ofParts, seconds, rest, Nat.div_add_mod']

def toJson (d : Duration) : Json := .record [("secs", .nat d.seconds), ("nanos", .nat d.rest)]

/-- Nanoseconds beyond a second are carried over, as long as the seconds stay in 64 bits. -/
def ofJson? (v : Json) : Option Duration := do
  match ← Json.closedFields? ["secs", "nanos"] v with
  | [secs, nanos] =>
    let d := ofParts (← Json.required Json.word64? secs) (← Json.required Json.word32? nanos)
    if d.seconds < Text.limit64 then some d else none
  | _ => none

end Duration
end BatchJob
