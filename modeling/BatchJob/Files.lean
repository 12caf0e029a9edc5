/-! Directories and files by their paths. A path names a place; a file there stands for a document,
which lives on for those who have it open when the file is removed. -/
namespace BatchJob

/-- `dirs` holds the places of the directories below the root, `entries` the place of each file with
the number of its document, and `documents` the bytes of all documents. The directory for temporary files lies
elsewhere, and may be missing. -/
structure Files where
  dirs : List (List String)
  entries : List (List String × Nat)
  documents : List (List UInt8)
  tempDir : String
  hasTempDir : Bool
  deriving DecidableEq, Repr

namespace Files

/-- The names from the working directory down. The directories above it have places too: so many
double dots, or a slash for the topmost one. -/
abbrev Place := List String

/-- Why a file cannot be read. -/
inductive Fault where
  | missing
  | notDirectory
  | isDirectory
  | tooLong
  | hasNul
  | notText
  deriving DecidableEq, Repr

def Fault.message : Fault → String
  | missing => "No such file or directory (os error 2)"
  | notDirectory => "Not a directory (os error 20)"
  | isDirectory => "Is a directory (os error 21)"
  | tooLong => "File name too long (os error 36)"
  | hasNul => "file name contained an unexpected NUL byte"
  | notText => "stream did not contain valid UTF-8"

def empty : Files := ⟨[], [], [], "/tmp", true⟩

def isAbove (name : String) : Bool := name = ".." || name = "/"

/-- Nothing is known of the directories above but that they are there. -/
def isDirAt (fs : Files) (place : Place) : Bool := place.all isAbove || fs.dirs.contains place

def documentAt? (fs : Files) (place : Place) : Option Nat := fs.entries.lookup place

/-- Above the topmost directory there is only itself. -/
def parent (place : Place) : Place :=
  if place = ["/"] then place
  else if place.all (· = "..") then place ++ [".."]
  else place.dropLast

/-- A name without letters stands for the directory itself, as a single dot does. -/
def step (place : Place) (name : String) : Place :=
  if name = "" ∨ name = "." then place
  else if name = ".." then parent place
  else place ++ [name]

def maxName : Nat := 255

def maxPath : Nat := 4095

/-- What makes a path useless wherever it is followed. -/
def pathFault? (path : String) : Option Fault :=
  if path.toList.contains (Char.ofNat 0) then some .hasNul
  else if path = "" then some .missing
  else if maxPath < path.utf8ByteSize then some .tooLong
  else none

def pathNames (path : String) : List String := path.splitOn "/"

def base (path : String) : Place := if path.startsWith "/" then ["/"] else []

def under (dir name : String) : String := if dir.endsWith "/" then dir ++ name else dir ++ "/" ++ name

/-- Follows the names of a path; all but the last have to lead to directories. -/
def follow (fs : Files) (place : Place) : List String → Except Fault Place
  | [] => .ok place
  | name :: rest =>
    if fs.isDirAt place then
      if maxName < name.utf8ByteSize then .error .tooLong else follow fs (step place name) rest
    else if (fs.documentAt? place).isSome then .error .notDirectory
    else .error .missing

def place? (fs : Files) (path : String) : Except Fault Place :=
  match pathFault? path with
  | some fault => .error fault
  | none => fs.follow (base path) (pathNames path)

def isDir (fs : Files) (path : String) : Bool :=
  match fs.place? path with
  | .ok place => fs.isDirAt place
  | .error _ => false

def open? (fs : Files) (path : String) : Except Fault Nat :=
  match fs.place? path with
  | .error e => .error e
  | .ok place =>
    if fs.isDirAt place then .error .isDirectory
    else
      match fs.documentAt? place with
      | some n => .ok n
      | none => .error .missing

def bytes (fs : Files) (document : Nat) : List UInt8 := (fs.documents[document]?).getD []

def text? (bytes : List UInt8) : Option String := String.fromUTF8? bytes.toByteArray

def read (fs : Files) (path : String) : Except Fault String :=
  match fs.open? path with
  | .error e => .error e
  | .ok document =>
    match text? (fs.bytes document) with
    | some s => .ok s
    | none => .error .notText

def addDir (fs : Files) (place : Place) : Files :=
  if fs.isDirAt place then fs else { fs with dirs := fs.dirs ++ [place] }

/-- Makes directories along the names, up to a name that cannot be one. -/
def makeDirs (fs : Files) (place : Place) : List String → Files
  | [] => fs
  | name :: rest =>
    if maxName < name.utf8ByteSize ∨ (fs.documentAt? (step place name)).isSome then fs
    else makeDirs (fs.addDir (step place name)) (step place name) rest

def mkdir (fs : Files) (path : String) : Files :=
  if (pathFault? path).isSome then fs else fs.makeDirs (base path) (pathNames path)

def isWithin (place other : Place) : Bool :=
  place.isPrefixOf other && !(other.drop place.length).any isAbove

def clearDir (fs : Files) (place : Place) : Files :=
  { fs with
    dirs := fs.dirs.filter fun d => d = place || !isWithin place d
    entries := fs.entries.filter fun e => !isWithin place e.1 }

def endsInDots (path : String) : Bool :=
  ((pathNames path).filter (· ≠ "")).getLast?.any fun name => name = "." || name = ".."

/-- Removes all that is in a directory, and then the directory if the path still leads there and has
a name for it. -/
def rmdir (fs : Files) (path : String) : Files :=
  match fs.place? path with
  | .error _ => fs
  | .ok place =>
    if fs.isDirAt place then
      let cleared := fs.clearDir place
      if endsInDots path ∨ !cleared.isDir path then cleared
      else { cleared with dirs := cleared.dirs.filter (· ≠ place) }
    else fs

def addEntry (fs : Files) (place : Place) (content : List UInt8) : Files :=
  { fs with
    entries := fs.entries ++ [(place, fs.documents.length)]
    documents := fs.documents ++ [content] }

/-- A file that is there keeps its document, with new content. -/
def write (fs : Files) (path : String) (content : List UInt8) : Files :=
  match fs.place? path with
  | .error _ => fs
  | .ok place =>
    if fs.isDirAt place then fs
    else
      match fs.documentAt? place with
      | some n => { fs with documents := fs.documents.set n content }
      | none => fs.addEntry place content

def remove (fs : Files) (path : String) : Files :=
  match fs.place? path with
  | .error _ => fs
  | .ok place => { fs with entries := fs.entries.filter fun e => e.1 ≠ place }

def names (fs : Files) (place : Place) : List String :=
  let below (p : Place) : Option String := if p.dropLast = place then p.getLast? else none
  fs.dirs.filterMap below ++ fs.entries.filterMap fun e => below e.1

def list? (fs : Files) (path : String) : Option (List String) :=
  match fs.place? path with
  | .ok place => if fs.isDirAt place then some (fs.names place) else none
  | .error _ => none

end Files
end BatchJob
