/-! What is done to all texts: ASCII letters change their case, and every other character is left as it is; one text is
sought inside another; trimming removes white space, the Unicode property `White_Space`, at both ends; and a text has a
first line that is not blank. -/
namespace BatchJob.Text

def upper (s : String) : String := String.ofList (s.toList.map Char.toUpper)

def lower (s : String) : String := String.ofList (s.toList.map Char.toLower)

@[simp] theorem toList_upper (s : String) : (upper s).toList = s.toList.map Char.toUpper := by
  simp [upper]

@[simp] theorem toList_lower (s : String) : (lower s).toList = s.toList.map Char.toLower := by
  simp [lower]

def occursInChars (fragment : List Char) : List Char → Bool
  | [] => fragment.isEmpty
  | c :: cs => fragment.isPrefixOf (c :: cs) || occursInChars fragment cs

/-- `fragment` stands somewhere in `s` as consecutive characters. -/
def occursIn (fragment s : String) : Bool := occursInChars fragment.toList s.toList

theorem occursInChars_iff (fragment cs : List Char) :
    occursInChars fragment cs = true ↔ fragment <:+: cs := by
  induction cs with
  | nil => simp [occursInChars]
  | cons c cs ih => simp [occursInChars, ih, List.infix_cons_iff]

@[simp] theorem occursIn_iff (fragment s : String) :
    occursIn fragment s = true ↔ fragment.toList <:+: s.toList :=
  occursInChars_iff _ _

/-- The code points of `White_Space`, as ranges with both ends included. -/
def blankRanges : List (Nat × Nat) :=
  [(0x09, 0x0D), (0x20, 0x20), (0x85, 0x85), (0xA0, 0xA0), (0x1680, 0x1680), (0x2000, 0x200A),
   (0x2028, 0x2029), (0x202F, 0x202F), (0x205F, 0x205F), (0x3000, 0x3000)]

def isBlank (c : Char) : Bool :=
  blankRanges.any fun r => r.1 ≤ c.toNat && c.toNat ≤ r.2

theorem isBlank_of_isWhitespace (c : Char) (h : c.isWhitespace = true) : isBlank c = true := by
  simp only [Char.isWhitespace, Bool.or_eq_true, decide_eq_true_eq] at h
  rcases h with ((h | h) | h) | h <;> subst h <;> rfl

def trimStart (cs : List Char) : List Char := cs.dropWhile isBlank

def trimEnd (cs : List Char) : List Char := (cs.reverse.dropWhile isBlank).reverse

def trimChars (cs : List Char) : List Char := trimEnd (trimStart cs)

def trim (s : String) : String := String.ofList (trimChars s.toList)

@[simp] theorem toList_trim (s : String) : (trim s).toList = trimChars s.toList := by
  simp [trim]

@[simp] theorem trimChars_nil : trimChars [] = [] := rfl

/-- A text is blank when nothing is left of it after trimming. -/
def blankText (s : String) : Bool := (trimChars s.toList).isEmpty

/-- The first line that is not blank, and what comes after it. `seen` holds what was read of the
line so far, last character first. -/
def lineFrom (seen : List Char) : List Char → Option (List Char × List Char)
  | [] => if (trimChars seen.reverse).isEmpty then none else some (seen.reverse, [])
  | c :: cs =>
    if c = '\n' then
      if (trimChars seen.reverse).isEmpty then lineFrom [] cs else some (seen.reverse, cs)
    else lineFrom (c :: seen) cs

def firstLine (text : List Char) : Option (List Char × List Char) := lineFrom [] text

def isReturn (c : Char) : Bool := c = '\r'

def dropReturns (line : List Char) : List Char := (line.reverse.dropWhile isReturn).reverse

end BatchJob.Text
