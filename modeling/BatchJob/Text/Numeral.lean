/-! Decimal numerals: readers with a bound, and the digits of a number. -/
namespace BatchJob.Text

def addDigit (n : Nat) (c : Char) : Option Nat :=
  if c.isDigit then some (10 * n + (c.toNat - '0'.toNat)) else none

def readDigits : List Char → Option Nat
  | [] => none
  | c :: cs => (c :: cs).foldlM addDigit 0

def dropPlus : List Char → List Char
  | '+' :: cs => cs
  | cs => cs

def readUnsigned (limit : Nat) (s : String) : Option Nat :=
  (readDigits (dropPlus s.toList)).filter (· < limit)

def readSigned (limit : Nat) (s : String) : Option Int :=
  match s.toList with
  | '-' :: cs => ((readDigits cs).filter (· ≤ limit)).map fun n => -(n : Int)
  | cs => ((readDigits (dropPlus cs)).filter (· < limit)).map fun n => (n : Int)

theorem readUnsigned_lt {limit n : Nat} {s : String} (h : readUnsigned limit s = some n) :
    n < limit := by
  simpa using (Option.filter_eq_some_iff.1 h).2

/-- One more than the largest 32-bit and 64-bit number. -/
def limit32 : Nat := Nat.pow 2 32

def limit64 : Nat := Nat.pow 2 64

def digits (n : Nat) : List Char := Nat.toDigits 10 n

def decimal (n : Nat) : String := String.ofList (digits n)

def padded (width n : Nat) : List Char :=
  List.replicate (width - (digits n).length) '0' ++ digits n

def groupDigits : List Char → List Char
  | [] => []
  | c :: cs =>
    if cs.length % 3 = 0 ∧ cs ≠ [] then c :: ',' :: groupDigits cs else c :: groupDigits cs

def grouped (n : Nat) : String := String.ofList (groupDigits (digits n))

theorem filter_groupDigits (cs : List Char) (h : ',' ∉ cs) :
    (groupDigits cs).filter (fun c => !decide (c = ',')) = cs := by
  induction cs with
  | nil => rfl
  | cons c cs ih =>
    simp only [List.mem_cons, not_or] at h
    unfold groupDigits
    split <;> simp [ih h.2, Ne.symm h.1]

end BatchJob.Text
