import BatchJob.Settings.Basic
import BatchJob.Text.Basic
import BatchJob.Work.Unit
import Mathlib.Algebra.GroupWithZero.Nat

/-! The units that a job has to make of the identifiers of its source. -/
namespace BatchJob.Job

def identifiers (raw : List String) : List String := raw.filter (Text.trim · ≠ "")

@[simp] theorem identifiers_append (xs ys : List String) :
    identifiers (xs ++ ys) = identifiers xs ++ identifiers ys := by simp [identifiers]

theorem blankText_iff (x : String) : Text.blankText x = true ↔ Text.trim x = "" := by
  rw [Text.blankText, List.isEmpty_iff, ← Text.toList_trim, String.toList_eq_nil_iff]

theorem identifiers_blank {x : String} (h : Text.blankText x = true) : identifiers [x] = [] := by
  have htrim : Text.trim x = "" := (blankText_iff x).mp h
  simp [identifiers, htrim]

theorem identifiers_of_not_blank {x : String} (h : Text.blankText x = false) :
    identifiers [x] = [x] := by
  have htrim : Text.trim x ≠ "" := fun he => by simp [(blankText_iff x).mpr he] at h
  simp [identifiers, htrim]

/-- Consecutive parts of length `n`; only the last one may be shorter. -/
def chunks (n : Nat) (xs : List String) : List (List String) :=
  if xs = [] ∨ n = 0 then [] else xs.take n :: chunks n (xs.drop n)
termination_by xs.length
decreasing_by
  rename_i h
  rw [not_or] at h
  have hpos : 0 < xs.length := List.length_pos_iff.mpr h.1
  simp only [List.length_drop]
  omega

@[simp] theorem chunks_nil (n : Nat) : chunks n [] = [] := by simp [chunks]

theorem chunks_of_ne_nil {n : Nat} (hn : 0 < n) {xs : List String} (hx : xs ≠ []) :
    chunks n xs = xs.take n :: chunks n (xs.drop n) := by
  rw [chunks, if_neg]
  rintro (h | h)
  · exact hx h
  · omega

theorem chunks_append {n : Nat} (hn : 0 < n) {batch : List String} (hb : batch.length = n)
    (rest : List String) : chunks n (batch ++ rest) = batch :: chunks n rest := by
  have hne : batch ++ rest ≠ [] := by
    intro h
    have := congrArg List.length h
    simp only [List.length_append, List.length_nil] at this
    omega
  rw [chunks_of_ne_nil hn hne, List.take_left' hb, List.drop_left' hb]

theorem chunks_of_length_le {n : Nat} {xs : List String} (hx : xs ≠ []) (hl : xs.length ≤ n) :
    chunks n xs = [xs] := by
  have hn : 0 < n := Nat.lt_of_lt_of_le (List.length_pos_iff.mpr hx) hl
  rw [chunks_of_ne_nil hn hx, List.take_of_length_le hl, List.drop_of_length_le hl, chunks_nil]

theorem flatten_chunks {n : Nat} (hn : 0 < n) (xs : List String) : (chunks n xs).flatten = xs := by
  induction xs using chunks.induct n with
  | case1 xs h =>
    have hx : xs = [] := h.resolve_right (by omega)
    simp [hx]
  | case2 xs h ih =>
    have hx : xs ≠ [] := fun he => h (Or.inl he)
    rw [chunks_of_ne_nil hn hx, List.flatten_cons, ih, List.take_append_drop]

def batches (c : Settings) (request : Work.Request) (parts : List (List String)) : List WorkUnit :=
  parts.mapIdx fun i ids => ⟨i, c.batchDelimiter.intercalate ids, ids.length, request⟩

variable {c : Settings} {request : Work.Request}

theorem batches_append (parts more : List (List String)) :
    batches c request parts <+: batches c request (parts ++ more) := by
  rw [batches, batches, List.mapIdx_append]
  exact List.prefix_append _ _

theorem batches_snoc (parts : List (List String)) (ids : List String) :
    batches c request (parts ++ [ids]) =
      batches c request parts ++ [.batch parts.length ids c.batchDelimiter request] := by
  simp [batches, List.mapIdx_append, WorkUnit.batch]

theorem getElem?_batches {parts : List (List String)} {i : Nat} {u : WorkUnit}
    (h : (batches c request parts)[i]? = some u) : u.id = i := by
  simp only [batches, List.getElem?_mapIdx, Option.map_eq_some_iff] at h
  obtain ⟨ids, -, rfl⟩ := h
  rfl

theorem sum_items_batches (parts : List (List String)) :
    ((batches c request parts).map (·.items)).sum = parts.flatten.length := by
  have hitems : (batches c request parts).map (·.items) = parts.map List.length := by
    apply List.ext_getElem?
    intro i
    simp only [batches, List.getElem?_map, List.getElem?_mapIdx]
    cases parts[i]? <;> rfl
  rw [hitems, List.length_flatten]

end BatchJob.Job
