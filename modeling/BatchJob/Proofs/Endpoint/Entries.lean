import BatchJob.Endpoint.Request
import Mathlib.Data.List.Rotate

/-! The entries of an endpoint pool. No two have one index, an endpoint that is registered stands for its own
entry, and a request changes one entry, removes one, or moves the cursor. -/
namespace BatchJob.Endpoint.Pool

/-- The indices are not used twice, and the cursor is not beyond the entries. -/
structure Valid (p : Pool) : Prop where
  nodup : (p.entries.map (·.endpoint.index)).Nodup
  cursor_le : p.cursor ≤ p.entries.length

variable {p q : Pool} {e : Endpoint} {r r' : Registration} {i : Nat} {s : Settings}
variable {leased : Option Duration} {now : Duration}

theorem map_index_registered (given : List Endpoint) :
    (registered given).map (·.endpoint.index) = List.range given.length := by
  apply List.ext_getElem
  · simp [registered]
  · intro i h h'
    simp [registered, Registration.fresh]

theorem build_eq {given : List Endpoint} (h : build given s = .ok p) :
    p = ⟨s, registered given, 0, false⟩ := by
  rw [build] at h
  split at h
  · cases h
  · split at h
    · cases h
    · cases h
      rfl

theorem valid_build {given : List Endpoint} (h : build given s = .ok p) : p.Valid := by
  rw [build_eq h]
  refine ⟨?_, Nat.zero_le _⟩
  simp only [map_index_registered]
  exact List.nodup_range

theorem Valid.eq_of_index (h : p.Valid) (hr : r ∈ p.entries) (hr' : r' ∈ p.entries)
    (he : r.endpoint.index = r'.endpoint.index) : r = r' :=
  List.inj_on_of_nodup_map h.nodup hr hr' he

theorem Valid.nodup_entries (h : p.Valid) : p.entries.Nodup := h.nodup.of_map _

theorem Valid.nodup_endpoints (h : p.Valid) : p.endpoints.Nodup := by
  refine List.Nodup.of_map (·.index) ?_
  simpa [endpoints, Function.comp_def] using h.nodup

theorem Valid.index_ne (h : p.Valid) (hr : p.entries[i]? = some r) {j : Nat} (hr' : p.entries[j]? = some r')
    (hij : j ≠ i) : r'.endpoint.index ≠ r.endpoint.index := by
  intro he
  have hsame := h.eq_of_index (List.mem_of_getElem? hr') (List.mem_of_getElem? hr) he
  have hlt := (List.getElem?_eq_some_iff.mp hr').1
  exact hij ((List.getElem?_inj hlt h.nodup_entries).mp (by rw [hr', hr, hsame]))

theorem exists_entry (h : p.position? e = some i) : ∃ r, p.entries[i]? = some r := by
  have hlt : i < p.entries.length := by
    rw [position?, Option.orElse_eq_orElse, Option.orElse_eq_or] at h
    rcases Option.or_eq_some_iff.mp h with h | ⟨-, h⟩
    · exact (List.findIdx?_eq_some_iff_findIdx_eq.mp h).1
    · exact (List.findIdx?_eq_some_iff_findIdx_eq.mp h).1
  exact ⟨p.entries[i], List.getElem?_eq_getElem hlt⟩

theorem Valid.position?_endpoint (h : p.Valid) (hr : p.entries[i]? = some r) :
    p.position? r.endpoint = some i := by
  obtain ⟨hlt, hat⟩ := List.getElem?_eq_some_iff.mp hr
  have hown : p.entries.findIdx? (·.isOf r.endpoint) = some i := by
    rw [List.findIdx?_eq_some_iff_getElem]
    refine ⟨hlt, by simp [hat, Registration.isOf, Registration.sameTarget], fun j hj hof => ?_⟩
    simp only [Registration.isOf, Bool.and_eq_true, decide_eq_true_eq] at hof
    exact h.index_ne hr (List.getElem?_eq_getElem (by omega)) (Nat.ne_of_lt hj) hof.2
  rw [position?, hown]
  rfl

theorem find?_of_position? (h : p.position? e = some i) : p.find? e = p.entries[i]? := by
  rw [find?, h, Option.bind_some]

theorem Valid.find?_endpoint (h : p.Valid) (hr : r ∈ p.entries) : p.find? r.endpoint = some r := by
  obtain ⟨i, hi⟩ := List.getElem?_of_mem hr
  rw [find?_of_position? (h.position?_endpoint hi), hi]

theorem Valid.quarantined_endpoint (h : p.Valid) (hr : r ∈ p.entries) (now : Duration) :
    p.quarantined r.endpoint now = !r.isFree p.settings now := by
  rw [quarantined, h.find?_endpoint hr, Option.any_some]

def put (p : Pool) (i : Nat) (r : Registration) : Pool := { p with entries := p.entries.set i r }

theorem put_self (hr : p.entries[i]? = some r) : p.put i r = p := by
  obtain ⟨hlt, rfl⟩ := List.getElem?_eq_some_iff.mp hr
  rw [put, List.set_getElem_self]

theorem modify_cases (p : Pool) (e : Endpoint) (f : Registration → Registration) :
    (p.find? e = none ∧ p.modify e f = p) ∨
      ∃ i r, p.entries[i]? = some r ∧ p.find? e = some r ∧ p.modify e f = p.put i (f r) := by
  cases hpos : p.position? e with
  | none => exact Or.inl ⟨by simp [find?, hpos], by simp [modify, hpos]⟩
  | some i =>
    obtain ⟨r, hr⟩ := exists_entry hpos
    refine Or.inr ⟨i, r, hr, by rw [find?_of_position? hpos, hr], ?_⟩
    simp only [modify, hpos, put]
    rw [List.modify_eq_set_getElem?]
    simp [hr]

theorem remove_cases (p : Pool) (e : Endpoint) :
    (p.find? e = none ∧ p.remove e = (false, p)) ∨
      ∃ i r, p.entries[i]? = some r ∧ p.find? e = some r ∧ p.remove e = (true, p.removeAt i) := by
  cases hpos : p.position? e with
  | none => exact Or.inl ⟨by simp [find?, hpos], by simp [remove, hpos]⟩
  | some i =>
    obtain ⟨r, hr⟩ := exists_entry hpos
    exact Or.inr ⟨i, r, hr, by rw [find?_of_position? hpos, hr], by simp [remove, hpos]⟩

theorem removeAt_put (p : Pool) (i : Nat) (r : Registration) : (p.put i r).removeAt i = p.removeAt i := by
  rw [removeAt, removeAt, put, List.eraseIdx_set_eq]

/-- A failure is not told of any entry, does not count, is noted with the entry, or costs it its place. An entry at
the limit stays only if it is the last one. -/
theorem fail_limit_cases (p : Pool) (e : Endpoint) (leased : Option Duration) (now : Duration) :
    (p.find? e = none ∧ p.fail e leased now = p) ∨
      ∃ i r, p.entries[i]? = some r ∧ p.find? e = some r ∧
        ((r.counts leased = false ∧ p.fail e leased now = p) ∨
          (r.counts leased = true ∧ p.fail e leased now = p.put i (r.fail now) ∧
            ∀ limit, p.settings.removeAfter = some limit → limit ≤ (r.fail now).errors.toNat →
              p.entries.length ≤ 1) ∨
          (r.counts leased = true ∧ p.fail e leased now = p.removeAt i ∧ 1 < p.entries.length)) := by
  cases hpos : p.position? e with
  | none => exact Or.inl ⟨by simp [find?, hpos], by simp [fail, hpos]⟩
  | some i =>
    obtain ⟨r, hr⟩ := exists_entry hpos
    refine Or.inr ⟨i, r, hr, by rw [find?_of_position? hpos, hr], ?_⟩
    cases hc : r.counts leased with
    | false => exact Or.inl ⟨rfl, by simp [fail, hpos, hr, hc]⟩
    | true =>
      cases hlimit : p.settings.removeAfter with
      | none => exact Or.inr (Or.inl ⟨rfl, by simp [fail, hpos, hr, hc, hlimit, put], by simp⟩)
      | some limit =>
        by_cases hover : limit ≤ (r.fail now).errors.toNat ∧ 1 < p.entries.length
        · refine Or.inr (Or.inr ⟨rfl, ?_, hover.2⟩)
          rw [← removeAt_put p i (r.fail now)]
          simp [fail, hpos, hr, hc, hlimit, hover, put]
        · refine Or.inr (Or.inl ⟨rfl, by simp [fail, hpos, hr, hc, hlimit, hover, put], fun limit' heq hle => ?_⟩)
          obtain rfl := Option.some.inj heq
          exact Nat.le_of_not_lt fun hlt => hover ⟨hle, hlt⟩

theorem fail_cases (p : Pool) (e : Endpoint) (leased : Option Duration) (now : Duration) :
    (p.find? e = none ∧ p.fail e leased now = p) ∨
      ∃ i r, p.entries[i]? = some r ∧ p.find? e = some r ∧
        ((r.counts leased = false ∧ p.fail e leased now = p) ∨
          (r.counts leased = true ∧ p.fail e leased now = p.put i (r.fail now)) ∨
          (r.counts leased = true ∧ p.fail e leased now = p.removeAt i)) := by
  rcases fail_limit_cases p e leased now with hnone | ⟨i, r, hr, hfind, hsame | ⟨hc, heq, -⟩ | ⟨hc, heq, -⟩⟩
  · exact Or.inl hnone
  · exact Or.inr ⟨i, r, hr, hfind, Or.inl hsame⟩
  · exact Or.inr ⟨i, r, hr, hfind, Or.inr (Or.inl ⟨hc, heq⟩)⟩
  · exact Or.inr ⟨i, r, hr, hfind, Or.inr (Or.inr ⟨hc, heq⟩)⟩

theorem map_put {α : Type} (f : Registration → α) (hr : p.entries[i]? = some r) (hf : f r' = f r) :
    (p.put i r').entries.map f = p.entries.map f := by
  obtain ⟨hlt, rfl⟩ := List.getElem?_eq_some_iff.mp hr
  rw [put, List.map_set, hf, ← List.getElem_map f, List.set_getElem_self]
  simpa using hlt

/-- A valid pool again, with the same settings. -/
structure Continues (p q : Pool) : Prop where
  valid : q.Valid
  settings : q.settings = p.settings

theorem Valid.continues (h : p.Valid) : p.Continues p := ⟨h, rfl⟩

theorem Valid.put (h : p.Valid) (hr : p.entries[i]? = some r) (he : r'.endpoint = r.endpoint) :
    p.Continues (p.put i r') where
  valid := by
    refine ⟨?_, by simpa [Pool.put] using h.cursor_le⟩
    rw [map_put _ hr (by rw [he])]
    exact h.nodup
  settings := rfl

theorem Valid.removeAt (h : p.Valid) (i : Nat) : p.Continues (p.removeAt i) where
  valid := by
    refine ⟨h.nodup.sublist ((List.eraseIdx_sublist p.entries i).map _), ?_⟩
    simp only [Pool.removeAt]
    generalize (if i < p.cursor then p.cursor - 1 else p.cursor) = cursor
    split
    · exact Nat.le_of_lt ‹_›
    · exact Nat.zero_le _
  settings := rfl

theorem Valid.passTurn (h : p.Valid) (hi : i < p.entries.length) : p.Continues (p.passTurn i) := by
  rw [Pool.passTurn]
  split
  · exact ⟨⟨h.nodup, Nat.le_of_lt (Nat.mod_lt _ (Nat.zero_lt_of_lt hi))⟩, rfl⟩
  · exact h.continues

theorem Valid.modify (h : p.Valid) (e : Endpoint) {f : Registration → Registration}
    (hf : ∀ r, (f r).endpoint = r.endpoint) : p.Continues (p.modify e f) := by
  rcases modify_cases p e f with ⟨-, heq⟩ | ⟨i, r, hr, -, heq⟩
  · rw [heq]
    exact h.continues
  · rw [heq]
    exact h.put hr (hf r)

theorem Valid.fail (h : p.Valid) (e : Endpoint) (leased : Option Duration) (now : Duration) :
    p.Continues (p.fail e leased now) := by
  rcases fail_cases p e leased now with ⟨-, heq⟩ | ⟨i, r, hr, -, ⟨-, heq⟩ | ⟨-, heq⟩ | ⟨-, heq⟩⟩
  · rw [heq]
    exact h.continues
  · rw [heq]
    exact h.continues
  · rw [heq]
    exact h.put hr rfl
  · rw [heq]
    exact h.removeAt i

theorem Valid.remove (h : p.Valid) (e : Endpoint) : p.Continues (p.remove e).2 := by
  rcases remove_cases p e with ⟨-, heq⟩ | ⟨i, r, hr, -, heq⟩
  · rw [heq]
    exact h.continues
  · rw [heq]
    exact h.removeAt i

theorem Valid.close (h : p.Valid) : p.Continues p.close := by
  rw [Pool.close]
  split
  · exact h.continues
  · exact ⟨⟨by simpa [Function.comp_def] using h.nodup, by simpa using h.cursor_le⟩, rfl⟩

theorem Valid.mem_put (h : p.Valid) (hr : p.entries[i]? = some r) {x : Registration}
    (hx : x ∈ (p.put i r').entries) :
    x = r' ∨ x ∈ p.entries ∧ x.endpoint.index ≠ r.endpoint.index := by
  obtain ⟨j, hj⟩ := List.getElem?_of_mem hx
  by_cases hij : j = i
  · left
    have hlt := (List.getElem?_eq_some_iff.mp hr).1
    subst hij
    simpa [Pool.put, hlt, eq_comm] using hj
  · right
    rw [Pool.put, List.getElem?_set_ne (Ne.symm hij)] at hj
    exact ⟨List.mem_of_getElem? hj, h.index_ne hr hj hij⟩

theorem Valid.mem_removeAt (h : p.Valid) (hr : p.entries[i]? = some r) {x : Registration}
    (hx : x ∈ (p.removeAt i).entries) : x ∈ p.entries ∧ x.endpoint.index ≠ r.endpoint.index := by
  obtain ⟨j, hij, hj⟩ := List.mem_eraseIdx_iff_getElem?.mp hx
  exact ⟨List.mem_of_getElem? hj, h.index_ne hr hj hij⟩

end BatchJob.Endpoint.Pool
