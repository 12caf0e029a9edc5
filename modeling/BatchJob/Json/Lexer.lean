import BatchJob.Json.Quoted
import BatchJob.Text.Numeral

/-! The words of a JSON text. The lexer is a machine that takes one character at a time. -/
namespace BatchJob.Json
open Text

/-- What a string literal spells: a character, or one 16-bit unit given by its number. -/
inductive Piece where
  | char (c : Char)
  | unit (u : Nat)
  deriving DecidableEq, Repr

def isHighUnit (u : Nat) : Bool := 0xD800 ≤ u && u ≤ 0xDBFF

def isLowUnit (u : Nat) : Bool := 0xDC00 ≤ u && u ≤ 0xDFFF

/-- A high unit and the low unit after it are one character; neither stands alone. -/
def spell : List Piece → Option (List Char)
  | [] => some []
  | .char c :: rest => (spell rest).map (c :: ·)
  | .unit u :: rest =>
    if isHighUnit u then
      match rest with
      | .unit v :: rest =>
        if isLowUnit v then
          (spell rest).map (Char.ofNat (0x10000 + (u - 0xD800) * 0x400 + (v - 0xDC00)) :: ·)
        else none
      | _ => none
    else if isLowUnit u then none
    else (spell rest).map (Char.ofNat u :: ·)

inductive Token where
  | openArray | closeArray | openObject | closeObject | comma | colon
  | null
  | bool (b : Bool)
  | nat (n : Nat)
  | number (numeral : String)
  | str (s : Option String)
  deriving DecidableEq, Repr

/-- Where the lexer stands; what it has collected is kept newest first. -/
inductive Lexing where
  | between
  | word (seen : List Char)
  | numeral (seen : List Char)
  | str (seen : List Piece)
  | escape (seen : List Piece)
  | hex (seen : List Piece) (count value : Nat)
  deriving DecidableEq, Repr

def wordToken? (cs : List Char) : Option Token :=
  if cs = "null".toList then some .null
  else if cs = "true".toList then some (.bool true)
  else if cs = "false".toList then some (.bool false)
  else none

def skipDigits : List Char → List Char := List.dropWhile Char.isDigit

def someDigits? : List Char → Option (List Char)
  | [] => none
  | c :: cs => if c.isDigit then some (skipDigits cs) else none

/-- No digit follows a leading zero. -/
def integerPart? : List Char → Option (List Char)
  | '0' :: cs => some cs
  | cs => someDigits? cs

def fraction? : List Char → Option (List Char)
  | '.' :: cs => someDigits? cs
  | cs => some cs

def exponent? : List Char → Option (List Char)
  | [] => some []
  | c :: cs =>
    if c = 'e' ∨ c = 'E' then
      match cs with
      | '+' :: cs => someDigits? cs
      | '-' :: cs => someDigits? cs
      | cs => someDigits? cs
    else some (c :: cs)

def isNumeral (cs : List Char) : Bool :=
  let unsigned := match cs with
    | '-' :: cs => cs
    | cs => cs
  ((integerPart? unsigned).bind fraction?).bind exponent? = some []

def numeralToken? (cs : List Char) : Option Token :=
  if isNumeral cs then
    match readDigits cs with
    | some n => some (.nat n)
    | none => some (.number (String.ofList cs))
  else none

def isSpace (c : Char) : Bool := c = ' ' || c = '\t' || c = '\n' || c = '\r'

def isNumeralChar (c : Char) : Bool :=
  c.isDigit || c = '+' || c = '-' || c = '.' || c = 'e' || c = 'E'

/-- A character between two words: the place after it and the word it is, if it is one. -/
def begin? (c : Char) : Option (Lexing × Option Token) :=
  if isSpace c then some (.between, none)
  else if c = '[' then some (.between, some .openArray)
  else if c = ']' then some (.between, some .closeArray)
  else if c = '\x7b' then some (.between, some .openObject)
  else if c = '\x7d' then some (.between, some .closeObject)
  else if c = ',' then some (.between, some .comma)
  else if c = ':' then some (.between, some .colon)
  else if c = '"' then some (.str [], none)
  else if c = '-' || c.isDigit then some (.numeral [c], none)
  else if c.isAlpha then some (.word [c], none)
  else none

def endAndBegin? (ended : Option Token) (c : Char) : Option (Lexing × List Token) := do
  let token ← ended
  let (state, next) ← begin? c
  return (state, token :: next.toList)

/-- One character: the place after it and the words it completes, or `none` where no text goes on. -/
def Lexing.step : Lexing → Char → Option (Lexing × List Token)
  | .between, c => (begin? c).map fun r => (r.1, r.2.toList)
  | .word seen, c =>
    if c.isAlpha then some (.word (c :: seen), []) else endAndBegin? (wordToken? seen.reverse) c
  | .numeral seen, c =>
    if isNumeralChar c then some (.numeral (c :: seen), [])
    else endAndBegin? (numeralToken? seen.reverse) c
  | .str seen, c =>
    if c = '"' then some (.between, [.str ((spell seen.reverse).map String.ofList)])
    else if c = '\\' then some (.escape seen, [])
    else if isControl c then none
    else some (.str (.char c :: seen), [])
  | .escape seen, c =>
    if c = 'u' then some (.hex seen 0 0, [])
    else (escaped? c).map fun e => (.str (.char e :: seen), [])
  | .hex seen count value, c =>
    (hexValue? c).map fun d =>
      if count = 3 then (.str (.unit (16 * value + d) :: seen), [])
      else (.hex seen (count + 1) (16 * value + d), [])

def Lexing.finish? : Lexing → Option (List Token)
  | .between => some []
  | .word seen => (wordToken? seen.reverse).map ([·])
  | .numeral seen => (numeralToken? seen.reverse).map ([·])
  | _ => none

def lexFrom : Lexing → List Char → Option (List Token)
  | state, [] => state.finish?
  | state, c :: cs => do
    let (state, tokens) ← state.step c
    let rest ← lexFrom state cs
    return tokens ++ rest

def lex (cs : List Char) : Option (List Token) := lexFrom .between cs

end BatchJob.Json
