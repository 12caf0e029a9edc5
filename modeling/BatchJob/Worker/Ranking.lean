import BatchJob.Time.Duration

/-! The slowest units of all that completed, as many of them as asked for. -/
namespace BatchJob.Worker

/-- How long a unit took. -/
structure Timing where
  identifier : String
  elapsed : Duration
  deriving DecidableEq, Repr

namespace Timing

def toJson (t : Timing) : Json :=
  .record [("identifier", .ofText t.identifier), ("elapsed", t.elapsed.toJson)]

def ofJson? (v : Json) : Option Timing := do
  match ← Json.completeFields? ["identifier", "elapsed"] v with
  | [identifier, elapsed] =>
    return ⟨← Json.required Json.text? identifier, ← Json.required Duration.ofJson? elapsed⟩
  | _ => none

end Timing

/-- The entries stand in no order of time. -/
structure Ranking where
  capacity : Nat
  entries : List Timing
  deriving DecidableEq, Repr

namespace Ranking

def empty (capacity : Nat) : Ranking := ⟨capacity, []⟩

/-- The first of the quickest entries, if `t` took longer, gives its place to `t`. -/
def replaceQuickest (t : Timing) : List Timing → List Timing
  | [] => []
  | e :: es =>
    if es.all fun x => e.elapsed ≤ x.elapsed then (if e.elapsed < t.elapsed then t else e) :: es
    else e :: replaceQuickest t es

def insert (r : Ranking) (t : Timing) : Ranking :=
  if r.capacity = 0 then r
  else if r.entries.length < r.capacity then { r with entries := r.entries ++ [t] }
  else { r with entries := replaceQuickest t r.entries }

/-- The slowest first; those that took the same time stay in their order. -/
def toList (r : Ranking) : List Timing := r.entries.mergeSort fun a b => b.elapsed ≤ a.elapsed

theorem length_replaceQuickest (t : Timing) (es : List Timing) :
    (replaceQuickest t es).length = es.length := by
  induction es with
  | nil => rfl
  | cons e es ih =>
    unfold replaceQuickest
    split
    · rfl
    · simp [ih]

@[simp] theorem capacity_insert (r : Ranking) (t : Timing) : (r.insert t).capacity = r.capacity := by
  unfold insert
  split
  · rfl
  · split <;> rfl

theorem length_insert {r : Ranking} (h : r.entries.length ≤ r.capacity) (t : Timing) :
    (r.insert t).entries.length = min r.capacity (r.entries.length + 1) := by
  unfold insert
  split
  · omega
  · split
    · simp only [List.length_append, List.length_singleton]; omega
    · rw [length_replaceQuickest]; omega

@[simp] theorem length_toList (r : Ranking) : r.toList.length = r.entries.length :=
  List.length_mergeSort _

theorem perm_toList (r : Ranking) : List.Perm r.toList r.entries := List.mergeSort_perm _ _

end Ranking
end BatchJob.Worker
