import BatchJob.Number.Binary64

/-! The pace of a job: its rates since the start and since the last look, and the time that is left. -/
namespace BatchJob

structure Sample where
  time : Duration
  completed : Nat
  failed : Nat
  total : Nat
  paused : Bool
  active : Nat
  deriving DecidableEq, Repr

/-- `rates` holds the rates between successive samples that the time left rests on, oldest first. -/
structure Pace where
  started : Duration
  previous : Option (Duration × Nat)
  rates : List Float
  window : Nat

/-- What one look shows. -/
structure Reading where
  average : Float
  current : Float
  left : Option Duration
  message : String

namespace Pace
open Text Number

def start (started : Duration) (window : Nat) : Pace := ⟨started, none, [], max 1 window⟩

/-- The rate at which identifiers were completed since the sample before, or since the start. -/
def currentRate (p : Pace) (s : Sample) : Float :=
  let (time, completed) := p.previous.getD (p.started, 0)
  perSecond (s.completed - completed) (s.time - time)

def averageRate (p : Pace) (s : Sample) : Float := perSecond s.completed (s.time - p.started)

def pushRate (window : Nat) (rates : List Float) (rate : Float) : List Float :=
  (if rates.length = window then rates.tail else rates) ++ [rate]

/-- A pause in which nothing was completed makes the older rates useless. -/
def nextRates (p : Pace) (s : Sample) : List Float :=
  if s.paused && p.currentRate s == 0 then [] else pushRate p.window p.rates (p.currentRate s)

def advance (p : Pace) (s : Sample) : Pace :=
  { p with previous := some (s.time, s.completed), rates := p.nextRates s }

def timeLeft (remaining : Nat) (rates : List Float) : Option Duration :=
  if remaining = 0 then some .zero
  else if rates = [] then none
  else
    let mean := rates.foldl (· + ·) 0 / Float.ofNat rates.length
    if mean > 0 then durationOf? (Float.ofNat remaining / mean) else none

def dropTrailing (c : Char) (cs : List Char) : List Char :=
  (cs.reverse.dropWhile (· = c)).reverse

/-- Two places after the point, then without the zeros at the end. -/
def hundredthsText (n : Nat) : String :=
  let fixed := digits (n / 100) ++ '.' :: padded 2 (n % 100)
  String.ofList (dropTrailing '.' (dropTrailing '0' fixed))

/-- Below one to two places, a half going up, and above in whole numbers. -/
def rateText (rate : Float) : String :=
  if rate > 0 then
    match Scaled.ofFloat? rate with
    | none => "0"
    | some s =>
      if rate < 1 then hundredthsText ((rate * 100).round.toUInt64.toNat)
      else grouped (min s.floor (limit64 - 1))
  else "0"

/-- Hours, minutes and seconds, each of two digits or more. -/
def timeText (d : Duration) : String :=
  String.ofList (padded 2 (d.seconds / 3600) ++ ':' :: padded 2 (d.seconds % 3600 / 60) ++
    ':' :: padded 2 (d.seconds % 60))

def leftText (left : Option Duration) (paused : Bool) : String :=
  let time := match left with
    | none => "--:--:--"
    | some d => timeText d
  if paused then time ++ " (paused)" else time

def message (s : Sample) (average current : Float) (left : Option Duration) : String :=
  let failed := if s.failed = 0 then "" else decimal s.failed ++ " tasks failed, "
  decimal s.completed ++ "/" ++ decimal s.total ++ ", " ++ failed ++ rateText average ++
    " tps(avg), " ++ rateText current ++ " tps(cur), ETC " ++ leftText left s.paused ++ ", " ++
    decimal s.active ++ " active threads."

def read (p : Pace) (s : Sample) : Reading :=
  let average := p.averageRate s
  let current := p.currentRate s
  let left := timeLeft (s.total - s.completed) (p.nextRates s)
  ⟨average, current, left, message s average current left⟩

def look (p : Pace) (s : Sample) : Reading × Pace := (p.read s, p.advance s)

@[simp] theorem window_advance (p : Pace) (s : Sample) : (p.advance s).window = p.window := rfl

@[simp] theorem rates_advance (p : Pace) (s : Sample) : (p.advance s).rates = p.nextRates s := rfl

@[simp] theorem previous_advance (p : Pace) (s : Sample) :
    (p.advance s).previous = some (s.time, s.completed) := rfl

end Pace
end BatchJob
