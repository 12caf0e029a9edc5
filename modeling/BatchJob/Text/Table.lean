/-! Tables from keys to values, in the order in which the keys were first put. -/
namespace BatchJob.Text

structure Table where
  entries : List (String × String)
  deriving DecidableEq, Repr

namespace Table

def empty : Table := ⟨[]⟩

def keys (t : Table) : List String := t.entries.map Prod.fst

def get? (t : Table) (key : String) : Option String := t.entries.lookup key

def putEntry (key value : String) : List (String × String) → List (String × String)
  | [] => [(key, value)]
  | (k, v) :: rest => if k = key then (key, value) :: rest else (k, v) :: putEntry key value rest

/-- A key put again keeps its place and takes the new value. -/
def put (t : Table) (key value : String) : Table := ⟨putEntry key value t.entries⟩

def ofList (entries : List (String × String)) : Table :=
  entries.foldl (fun t e => t.put e.1 e.2) empty

/-- All of `upper`, and what `lower` has under other keys. -/
def override (lower upper : Table) : Table :=
  upper.entries.foldl (fun t e => t.put e.1 e.2) lower

@[simp] theorem lookup_cons (k key value : String) (rest : List (String × String)) :
    ((key, value) :: rest).lookup k = if k = key then some value else rest.lookup k := by
  rw [List.lookup_cons]
  by_cases h : k = key
  · simp [h]
  · rw [if_neg h, beq_false_of_ne h]

theorem lookup_putEntry (key value k : String) (entries : List (String × String)) :
    (putEntry key value entries).lookup k = if k = key then some value else entries.lookup k := by
  induction entries with
  | nil => simp [putEntry]
  | cons e rest ih =>
    obtain ⟨k', v⟩ := e
    unfold putEntry
    by_cases h' : k' = key
    · subst h'
      by_cases h : k = k' <;> simp [h]
    · by_cases h : k = k'
      · subst h
        simp [h']
      · simp [h', h, ih]

@[simp] theorem get?_put (t : Table) (key value k : String) :
    (t.put key value).get? k = if k = key then some value else t.get? k :=
  lookup_putEntry key value k t.entries

@[simp] theorem get?_empty (k : String) : empty.get? k = none := rfl

end Table
end BatchJob.Text
