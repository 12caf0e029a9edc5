import BatchJob.Time.Duration

/-! Binary64 numbers taken apart, and their exact way to and from lengths of time. -/
namespace BatchJob.Number

def twoTo (e : Nat) : Nat := Nat.pow 2 e

/-- The size of a finite number: `significand` times two to the power `exponent`. -/
structure Scaled where
  negative : Bool
  significand : Nat
  exponent : Int
  deriving DecidableEq, Repr

def Scaled.ofBits? (bits : Nat) : Option Scaled :=
  let power : Nat := bits / twoTo 52 % twoTo 11
  let fraction : Nat := bits % twoTo 52
  let negative := decide (bits / twoTo 63 % 2 = 1)
  if power = 2047 then none
  else if power = 0 then some ⟨negative, fraction, -1074⟩
  else some ⟨negative, fraction + twoTo 52, (power : Int) - 1075⟩

/-- The nearest whole number to `num / den`; of two, the even one. -/
def roundDiv (num den : Nat) : Nat :=
  if 2 * (num % den) < den then num / den
  else if 2 * (num % den) = den then num / den + num / den % 2
  else num / den + 1

/-- The nearest whole number to `factor` times the size. -/
def Scaled.times (s : Scaled) (factor : Nat) : Nat :=
  match s.exponent with
  | .ofNat e => s.significand * factor * twoTo e
  | .negSucc e => roundDiv (s.significand * factor) (twoTo (e + 1))

def Scaled.floor (s : Scaled) : Nat :=
  match s.exponent with
  | .ofNat e => s.significand * twoTo e
  | .negSucc e => s.significand / twoTo (e + 1)

def Scaled.ofFloat? (x : Float) : Option Scaled := Scaled.ofBits? x.toBits.toNat

/-- Seconds as a number: the whole ones and the rest are converted apart and then added. -/
def secondsOf (d : Duration) : Float :=
  Float.ofNat d.seconds + Float.ofNat d.rest / Float.ofNat Duration.perSecond

/-- The nearest length of time in nanoseconds, if it is not negative and its seconds fit 64 bits. -/
def durationOf? (seconds : Float) : Option Duration := do
  let s ← Scaled.ofFloat? seconds
  let d : Duration := ⟨s.times Duration.perSecond⟩
  if seconds < 0 ∨ Text.limit64 ≤ d.seconds then none else some d

/-- How many there are to a second; nothing at all in no time. -/
def perSecond (count : Nat) (time : Duration) : Float :=
  let seconds := secondsOf time
  if seconds > 0 then Float.ofNat count / seconds else 0

theorem roundDiv_eq (num den : Nat) : roundDiv num den = num / den ∨
    (roundDiv num den = num / den + 1 ∧ den ≤ 2 * (num % den)) := by
  unfold roundDiv
  split
  · exact .inl rfl
  · split
    · have : num / den % 2 = 0 ∨ num / den % 2 = 1 := by omega
      rcases this with h | h
      · exact .inl (by omega)
      · exact .inr ⟨by omega, by omega⟩
    · exact .inr ⟨rfl, by omega⟩

end BatchJob.Number
