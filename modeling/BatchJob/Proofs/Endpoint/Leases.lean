import BatchJob.Proofs.Endpoint.Waiting

/-! The books of a pool: who is registered, with how many leases. A lease stands in them as long as it is held, and
errors at most strike an entry out. -/
namespace BatchJob.Endpoint

namespace Registration
variable {r : Registration}

theorem toNat_hold (h : r.leases.toNat + 1 < UInt32.size) : r.hold.leases.toNat = r.leases.toNat + 1 := by
  rw [hold, UInt32.toNat_add]
  exact Nat.mod_eq_of_lt h

/-- A lease that is taken back leaves no trace, unless the counter was at its end. -/
theorem release_hold (h : r.leases.toNat + 1 < UInt32.size) : r.hold.release = r := by
  have hne : r.leases + 1 ≠ 0 := by
    intro hzero
    have hheld := toNat_hold h
    rw [hold, hzero] at hheld
    cases hheld
  simp [release, hold, hne]

end Registration

namespace Pool
variable {p : Pool} {e : Endpoint} {r : Registration} {i : Nat}

/-- Who is registered, and with how many leases. -/
def books (p : Pool) : List (Endpoint × Nat) := p.entries.map fun r => (r.endpoint, r.leases.toNat)

/-- There is room for one lease more in every counter. -/
def Spacious (books : List (Endpoint × Nat)) : Prop := ∀ x ∈ books, x.2 + 1 < UInt32.size

/-- The books with one lease more for an endpoint. -/
def lend (e : Endpoint) (books : List (Endpoint × Nat)) : List (Endpoint × Nat) :=
  books.map fun x => if x.1 = e then (x.1, x.2 + 1) else x

theorem books_congr {q : Pool} (h : q.entries = p.entries) : q.books = p.books := by rw [books, books, h]

theorem books_put {r' : Registration} (hr : p.entries[i]? = some r) (he : r'.endpoint = r.endpoint)
    (hl : r'.leases = r.leases) : (p.put i r').books = p.books :=
  map_put _ hr (by rw [he, hl])

theorem Spacious.entry (h : Spacious p.books) (hr : p.entries[i]? = some r) : r.leases.toNat + 1 < UInt32.size :=
  h _ (List.mem_map_of_mem (List.mem_of_getElem? hr))

theorem books_removeAt (p : Pool) (i : Nat) : (p.removeAt i).books.Sublist p.books :=
  (List.eraseIdx_sublist p.entries i).map _

theorem books_succeed (p : Pool) (e : Endpoint) : (p.succeed e).books = p.books := by
  rcases modify_cases p e .recover with ⟨-, heq⟩ | ⟨i, r, hr, -, heq⟩
  · rw [succeed, heq]
  · rw [succeed, heq]
    exact books_put hr rfl rfl

theorem books_fail (p : Pool) (e : Endpoint) (leased : Option Duration) (now : Duration) :
    (p.fail e leased now).books.Sublist p.books := by
  rcases fail_cases p e leased now with ⟨-, heq⟩ | ⟨i, r, hr, -, ⟨-, heq⟩ | ⟨-, heq⟩ | ⟨-, heq⟩⟩
  · rw [heq]
  · rw [heq]
  · have hput : (p.put i (r.fail now)).books = p.books := books_put hr rfl rfl
    rw [heq, hput]
  · rw [heq]
    exact books_removeAt p i

theorem Continues.trans {q s : Pool} (h : p.Continues q) (h' : q.Continues s) : p.Continues s :=
  ⟨h'.valid, h'.settings.trans h.settings⟩

theorem Valid.modify_entry (h : p.Valid) (hr : p.entries[i]? = some r) (f : Registration → Registration) :
    p.modify r.endpoint f = p.put i (f r) := by
  rcases modify_cases p r.endpoint f with ⟨hnone, -⟩ | ⟨j, x, hx, hfind, heq⟩
  · rw [h.find?_endpoint (List.mem_of_getElem? hr)] at hnone
    cases hnone
  · obtain rfl : r = x := Option.some.inj ((h.find?_endpoint (List.mem_of_getElem? hr)).symm.trans hfind)
    have hlt := (List.getElem?_eq_some_iff.mp hx).1
    obtain rfl := (List.getElem?_inj hlt h.nodup_entries).mp (hx.trans hr.symm)
    exact heq

theorem exists_of_mem_endpoints (he : e ∈ p.endpoints) :
    ∃ (i : Nat) (r : Registration), p.entries[i]? = some r ∧ r.endpoint = e := by
  obtain ⟨r, hr, rfl⟩ := List.mem_map.mp he
  obtain ⟨i, hi⟩ := List.getElem?_of_mem hr
  exact ⟨i, r, hi, rfl⟩

theorem Valid.books_hold (h : p.Valid) (hroom : Spacious p.books) (he : e ∈ p.endpoints) :
    (p.hold e).books = lend e p.books := by
  obtain ⟨i, r, hr, rfl⟩ := exists_of_mem_endpoints he
  have hheld := Registration.toNat_hold (hroom.entry hr)
  rw [hold, h.modify_entry hr, books, lend, books, List.map_map]
  refine List.ext_getElem? fun j => ?_
  rw [Pool.put, List.getElem?_map, List.getElem?_map, List.getElem?_set]
  split
  · next hij =>
    subst hij
    obtain ⟨hlt, hat⟩ := List.getElem?_eq_some_iff.mp hr
    simp only [hlt, if_true, Option.map_some, List.getElem?_eq_getElem hlt, hat, Function.comp_apply, hheld]
    rfl
  · next hij =>
    cases hx : p.entries[j]? with
    | none => rfl
    | some x =>
      have hne : x.endpoint ≠ r.endpoint := fun hsame => h.index_ne hr hx (Ne.symm hij) (congrArg _ hsame)
      simp [hne]

theorem Valid.release_hold (h : p.Valid) (hroom : Spacious p.books) (he : e ∈ p.endpoints) :
    (p.hold e).release e = p := by
  obtain ⟨i, r, hr, rfl⟩ := exists_of_mem_endpoints he
  have hvalid : p.Continues (p.put i r.hold) := h.put hr rfl
  have hheld : (p.put i r.hold).entries[i]? = some r.hold := by
    simp [Pool.put, (List.getElem?_eq_some_iff.mp hr).1]
  have hback : (p.put i r.hold).release r.endpoint = (p.put i r.hold).put i r.hold.release :=
    hvalid.valid.modify_entry hheld .release
  rw [hold, h.modify_entry hr, hback, Registration.release_hold (hroom.entry hr), Pool.put, Pool.put, List.set_set]
  exact put_self hr

end Pool
end BatchJob.Endpoint
