import BatchJob.Text.Basic
import BatchJob.Text.Table

/-! Texts of lines `KEY=value` or `KEY: value`. A line that starts with `#` or `!` is a comment, and
a line without a key or without a separator says nothing. -/
namespace BatchJob.Text

def normalizeChar (c : Char) : Char := if c = '_' then '-' else c.toUpper

def normalizeChars (cs : List Char) : List Char := (trimChars cs).map normalizeChar

/-- Trimmed, in upper case, with a dash for every underscore. -/
def normalizeKey (key : String) : String := String.ofList (normalizeChars key.toList)

@[simp] theorem toList_normalizeKey (key : String) :
    (normalizeKey key).toList = normalizeChars key.toList := by
  simp [normalizeKey]

def isSeparator (c : Char) : Bool := c = '=' || c = ':'

def isComment : List Char → Bool
  | '#' :: _ => true
  | '!' :: _ => true
  | _ => false

/-- The key before the first separator and the trimmed rest after it. -/
def splitEntry (line : List Char) : Option (String × String) :=
  match line.dropWhile fun c => !isSeparator c with
  | [] => none
  | _ :: value =>
    match normalizeChars (line.takeWhile fun c => !isSeparator c) with
    | [] => none
    | key => some (String.ofList key, String.ofList (trimChars value))

def lineEntry (line : List Char) : Option (String × String) :=
  if isComment (trimChars line) then none else splitEntry (trimChars line)

def lines (text : List Char) : List (List Char) := text.splitOn '\n'

def entries (text : List Char) : List (String × String) := (lines text).filterMap lineEntry

def readProperties (text : String) : Table := Table.ofList (entries text.toList)

end BatchJob.Text
