import BatchJob.Proofs.Endpoint.Waiting

/-! Handles. Who is given an endpoint keeps it, while others may take its registration out of the pool. The handle
stands for its own registration as long as that is there, and then for the first one left with the same address and
user: an address alone is all that the pool needs to be told, and the index only tells twins apart. -/
namespace BatchJob.Endpoint

/-- What can be asked for through a handle. -/
inductive Errand where
  | fail (leased : Option Duration)
  | succeed
  | hold
  | release
  | remove
  | query
  deriving DecidableEq, Repr

def Errand.request (e : Endpoint) : Errand → Request
  | fail leased => .fail e leased
  | succeed => .succeed e
  | hold => .hold e
  | release => .release e
  | remove => .remove e
  | query => .query e

namespace Pool
variable {p : Pool} {e e' : Endpoint} {r r' : Registration} {i : Nat}

/-- The entries of all registrations but that of the endpoint. -/
def others (p : Pool) (e : Endpoint) : List Registration :=
  p.entries.filter fun r => r.endpoint.index ≠ e.index

theorem filter_set {α : Type} {keep : α → Bool} {l : List α} {i : Nat} {x y : α} (h : l[i]? = some x)
    (hx : keep x = false) (hy : keep y = false) : (l.set i y).filter keep = l.filter keep := by
  induction l generalizing i with
  | nil => rfl
  | cons z rest ih =>
    cases i with
    | zero =>
      obtain rfl : z = x := by simpa using h
      simp [hx, hy]
    | succ i => simp [List.filter_cons, ih (i := i) (by simpa using h)]

theorem filter_eraseIdx {α : Type} {keep : α → Bool} {l : List α} {i : Nat} {x : α} (h : l[i]? = some x)
    (hx : keep x = false) : (l.eraseIdx i).filter keep = l.filter keep := by
  induction l generalizing i with
  | nil => rfl
  | cons z rest ih =>
    cases i with
    | zero =>
      obtain rfl : z = x := by simpa using h
      simp [hx]
    | succ i => simp [List.filter_cons, ih (i := i) (by simpa using h)]

theorem others_put (hr : p.entries[i]? = some r) (he : r'.endpoint = r.endpoint) :
    (p.put i r').others r.endpoint = p.others r.endpoint :=
  filter_set hr (by simp) (by simp [he])

theorem others_removeAt (hr : p.entries[i]? = some r) :
    (p.removeAt i).others r.endpoint = p.others r.endpoint :=
  filter_eraseIdx hr (by simp)

theorem mem_of_others_eq {q : Pool} (h : q.others e = p.others e) (hr : r ∈ p.entries)
    (hne : r.endpoint.index ≠ e.index) : r ∈ q.entries := by
  have hmem : r ∈ p.others e := List.mem_filter.mpr ⟨hr, by simpa using hne⟩
  rw [← h] at hmem
  exact (List.mem_filter.mp hmem).1

/-- Nobody else than the first twin is found for an endpoint that has no entry of its own. -/
theorem position?_of_gone (h : ∀ x ∈ p.entries, x.isOf e = false) :
    p.position? e = p.entries.findIdx? (·.sameTarget e) := by
  have hnone : p.entries.findIdx? (·.isOf e) = none := List.findIdx?_eq_none_iff.mpr h
  rw [position?, hnone]
  rfl

theorem position?_twin {before after : List Registration} (h : ∀ x ∈ p.entries, x.isOf e = false)
    (hsplit : p.entries = before ++ r :: after) (hr : r.sameTarget e = true)
    (hbefore : ∀ x ∈ before, x.sameTarget e = false) : p.position? e = some before.length := by
  have hlt : before.length < p.entries.length := by simp [hsplit]
  rw [position?_of_gone h, List.findIdx?_eq_some_iff_getElem]
  refine ⟨hlt, by simpa [hsplit] using hr, fun j hj => ?_⟩
  have hat : p.entries[j] = before[j] := by simp [hsplit, hj]
  simp [hat, hbefore _ (List.getElem_mem hj)]

theorem find?_eq_none (h : ∀ x ∈ p.entries, x.sameTarget e = false) : p.find? e = none := by
  have hof : ∀ x ∈ p.entries, x.isOf e = false := fun x hx => by simp [Registration.isOf, h x hx]
  have htarget : p.entries.findIdx? (·.sameTarget e) = none := List.findIdx?_eq_none_iff.mpr h
  rw [find?, position?_of_gone hof, htarget, Option.bind_none]

theorem sameTarget_of_find? (h : p.find? e = some r) : r.sameTarget e = true := by
  obtain ⟨i, hpos, hr⟩ := Option.bind_eq_some_iff.mp h
  rw [position?, Option.orElse_eq_orElse, Option.orElse_eq_or] at hpos
  rcases Option.or_eq_some_iff.mp hpos with hown | ⟨-, htwin⟩
  · obtain ⟨hlt, hof, -⟩ := List.findIdx?_eq_some_iff_getElem.mp hown
    obtain rfl : p.entries[i] = r := by simpa [hlt] using hr
    exact (Bool.and_eq_true_iff.mp hof).1
  · obtain ⟨hlt, htarget, -⟩ := List.findIdx?_eq_some_iff_getElem.mp htwin
    obtain rfl : p.entries[i] = r := by simpa [hlt] using hr
    exact htarget

end Pool

namespace Desk
variable {d d' : Desk} {e e' x : Endpoint} {r : Registration}

theorem others_handle (h : d.pool.find? e = some r) (a : Errand) :
    (d.handle (a.request e)).2.pool.others r.endpoint = d.pool.others r.endpoint := by
  have hmodify (f : Registration → Registration) (hf : ∀ r, (f r).endpoint = r.endpoint) :
      (d.pool.modify e f).others r.endpoint = d.pool.others r.endpoint := by
    rcases Pool.modify_cases d.pool e f with ⟨hnone, -⟩ | ⟨i, r', hr, hfind, heq⟩
    · simp [hnone] at h
    · obtain rfl := Option.some.inj (hfind.symm.trans h)
      rw [heq]
      exact Pool.others_put hr (hf r')
  cases a with
  | succeed => exact hmodify _ fun _ => rfl
  | hold => exact hmodify _ fun _ => rfl
  | release => exact hmodify _ fun _ => rfl
  | query => rfl
  | remove =>
    rcases Pool.remove_cases d.pool e with ⟨hnone, -⟩ | ⟨i, r', hr, hfind, heq⟩
    · simp [hnone] at h
    · obtain rfl := Option.some.inj (hfind.symm.trans h)
      rw [Errand.request, handle, heq]
      exact Pool.others_removeAt hr
  | fail leased =>
    rw [Errand.request, handle, Desk.fail, onPool]
    rcases Pool.fail_cases d.pool e leased d.now with ⟨hnone, -⟩ | ⟨i, r', hr, hfind, hcase⟩
    · simp [hnone] at h
    · obtain rfl := Option.some.inj (hfind.symm.trans h)
      rcases hcase with ⟨-, heq⟩ | ⟨-, heq⟩ | ⟨-, heq⟩
      · rw [heq]
      · rw [heq]
        exact Pool.others_put hr rfl
      · rw [heq]
        exact Pool.others_removeAt hr

theorem handle_of_find?_none (h : d.pool.find? e = none) (a : Errand) : (d.handle (a.request e)).2 = d := by
  have hmodify (f : Registration → Registration) : d.pool.modify e f = d.pool := by
    rcases Pool.modify_cases d.pool e f with ⟨-, heq⟩ | ⟨i, r, -, hfind, -⟩
    · exact heq
    · simp [hfind] at h
  cases a with
  | succeed => simp [Errand.request, handle, onPool, Pool.succeed, hmodify]
  | hold => simp [Errand.request, handle, onPool, Pool.hold, hmodify]
  | release => simp [Errand.request, handle, onPool, Pool.release, hmodify]
  | query => rfl
  | remove =>
    rcases Pool.remove_cases d.pool e with ⟨-, heq⟩ | ⟨i, r, -, hfind, -⟩
    · rw [Errand.request, handle, heq]
    · simp [hfind] at h
  | fail leased =>
    rcases Pool.fail_cases d.pool e leased d.now with ⟨-, heq⟩ | ⟨i, r, -, hfind, -⟩
    · rw [Errand.request, handle, Desk.fail, onPool, heq]
    · simp [hfind] at h

theorem remove_of_find?_none (h : d.pool.find? e = none) : d.handle (.remove e) = (.removed false, d) := by
  rcases Pool.remove_cases d.pool e with ⟨-, heq⟩ | ⟨i, r, -, hfind, -⟩
  · rw [handle, heq]
  · simp [hfind] at h

/-- Two endpoints for which the same entry is found can be used one for the other. -/
theorem handle_congr (h : d.pool.position? e = d.pool.position? e') (a : Errand) :
    d.handle (a.request e) = d.handle (a.request e') := by
  cases a <;>
    simp [Errand.request, handle, Desk.fail, onPool, Pool.fail, Pool.succeed, Pool.hold, Pool.release, Pool.remove,
      Pool.modify, Pool.errors?, Pool.leases?, Pool.quarantined, Pool.find?, h]

theorem endpoints_handle (h : d.pool.Valid) (q : Request) :
    (d.handle q).2.pool.endpoints.Sublist d.pool.endpoints := by
  have hput {i : Nat} {r r' : Registration} (hr : d.pool.entries[i]? = some r) (he : r'.endpoint = r.endpoint) :
      (d.pool.put i r').endpoints.Sublist d.pool.endpoints := by
    rw [Pool.endpoints, Pool.map_put _ hr he]
    exact .refl _
  have hremove (i : Nat) : (d.pool.removeAt i).endpoints.Sublist d.pool.endpoints :=
    (List.eraseIdx_sublist d.pool.entries i).map _
  have hmodify (e : Endpoint) (f : Registration → Registration) (hf : ∀ r, (f r).endpoint = r.endpoint) :
      (d.pool.modify e f).endpoints.Sublist d.pool.endpoints := by
    rcases Pool.modify_cases d.pool e f with ⟨-, heq⟩ | ⟨i, r, hr, -, heq⟩
    · rw [heq]
    · rw [heq]
      exact hput hr (hf r)
  cases q with
  | get => rw [handle_get, Pool.endpoints, entries_get h, Pool.endpoints]
  | getMany n => rw [handle_getMany, Pool.endpoints, entries_gets h, Pool.endpoints]
  | fail e leased =>
    rw [handle, Desk.fail, onPool]
    rcases Pool.fail_cases d.pool e leased d.now with
      ⟨-, heq⟩ | ⟨i, r, hr, -, ⟨-, heq⟩ | ⟨-, heq⟩ | ⟨-, heq⟩⟩
    · rw [heq]
    · rw [heq]
    · rw [heq]
      exact hput hr rfl
    · rw [heq]
      exact hremove i
  | succeed e => exact hmodify e _ fun _ => rfl
  | hold e => exact hmodify e _ fun _ => rfl
  | release e => exact hmodify e _ fun _ => rfl
  | remove e =>
    rcases Pool.remove_cases d.pool e with ⟨-, heq⟩ | ⟨i, r, -, -, heq⟩
    · rw [handle, heq]
    · rw [handle, heq]
      exact hremove i
  | query e => exact .refl _
  | close =>
    have hclose : d.pool.close.endpoints = d.pool.endpoints := by
      by_cases hc : d.pool.closed <;> simp [Pool.close, Pool.endpoints, hc]
    rw [handle, onPool, hclose]
  | advance t => exact .refl _

/-- What happens at one moment: a request is served, one who waits goes to sleep, or finds a free endpoint on
looking again. -/
inductive Moment (d : Desk) : Desk → Prop
  | request (q : Request) : Moment d (d.handle q).2
  | sleep (t : Duration) : Moment d (d.sleep t)
  | granted {e : Endpoint} {waits : Nat} {pool : Pool} (h : d.pool.look d.now d.draws waits = .granted e pool) :
    Moment d { d with pool := pool, draws := d.draws + 1 }

theorem look_granted_cases {waits : Nat} {pool : Pool} (hv : d.pool.Valid)
    (h : d.pool.look d.now d.draws waits = .granted e pool) :
    e ∈ d.pool.endpoints ∧ d.pool.Continues pool ∧ pool.endpoints = d.pool.endpoints := by
  obtain ⟨i, r, -, rfl, rfl, hchosen⟩ := Pool.select?_cases hv (Pool.look_granted h).2
  refine ⟨List.mem_map_of_mem (List.mem_of_getElem? hchosen.entry),
    hv.passTurn (List.getElem?_eq_some_iff.mp hchosen.entry).1, ?_⟩
  rw [Pool.passTurn]
  split <;> rfl

theorem Moment.kept (h : d.Moment d') (hv : d.pool.Valid) :
    d'.pool.Valid ∧ d'.pool.endpoints.Sublist d.pool.endpoints := by
  cases h with
  | request q => exact ⟨(follows_handle hv q).pool.valid, endpoints_handle hv q⟩
  | sleep t => exact ⟨hv, .refl _⟩
  | granted h =>
    obtain ⟨-, hpool, heq⟩ := look_granted_cases hv h
    exact ⟨hpool.valid, by rw [heq]⟩

/-- What callers come to who do one thing after another, some of them waiting while others are served. -/
abbrev Reaches : Desk → Desk → Prop := Relation.ReflTransGen Moment

theorem Reaches.kept (h : d.Reaches d') (hv : d.pool.Valid) :
    d'.pool.Valid ∧ d'.pool.endpoints.Sublist d.pool.endpoints := by
  induction h with
  | refl => exact ⟨hv, .refl _⟩
  | tail _ hlast ih =>
    obtain ⟨hvalid, hsub⟩ := hlast.kept ih.1
    exact ⟨hvalid, hsub.trans ih.2⟩

theorem reaches_handleAll (d : Desk) (requests : List Request) : d.Reaches (d.handleAll requests) := by
  induction requests generalizing d with
  | nil => exact .refl
  | cons q requests ih => exact .head (.request q) (ih _)

/-- The handle is given away here, to one who looks for an endpoint or to one who asks for all of them. -/
def HandsOut (d : Desk) (e : Endpoint) : Prop :=
  e ∈ d.pool.endpoints ∨ ∃ waits pool, d.pool.look d.now d.draws waits = .granted e pool

/-- The handle was given away at some time since the pool was built, and anything happened before and after. -/
def Issued (d : Desk) (e : Endpoint) : Prop :=
  ∃ given s p clock draws d₁, Pool.build given s = .ok p ∧ Reaches ⟨p, clock, draws⟩ d₁ ∧ d₁.HandsOut e ∧
    d₁.Reaches d

theorem HandsOut.mem (h : d.HandsOut e) (hv : d.pool.Valid) : e ∈ d.pool.endpoints := by
  rcases h with hmem | ⟨waits, pool, hlook⟩
  · exact hmem
  · exact (look_granted_cases hv hlook).1

theorem Issued.valid (h : d.Issued e) : d.pool.Valid := by
  obtain ⟨given, s, p, clock, draws, d₁, hbuild, hbefore, -, hafter⟩ := h
  exact (hafter.kept (hbefore.kept (Pool.valid_build hbuild)).1).1

theorem Issued.eq_of_index (h : d.Issued e) (hx : x ∈ d.pool.endpoints) (hi : x.index = e.index) : x = e := by
  obtain ⟨given, s, p, clock, draws, d₁, hbuild, hbefore, hout, hafter⟩ := h
  have hv := (hbefore.kept (Pool.valid_build hbuild)).1
  obtain ⟨r, hr, rfl⟩ := List.mem_map.mp ((hafter.kept hv).2.subset hx)
  obtain ⟨r', hr', rfl⟩ := List.mem_map.mp (hout.mem hv)
  rw [hv.eq_of_index hr hr' hi]

theorem Issued.not_isOf (h : d.Issued e) (hgone : e ∉ d.pool.endpoints) : ∀ r ∈ d.pool.entries, r.isOf e = false := by
  intro r hr
  by_contra hof
  have hindex : r.endpoint.index = e.index := by
    simp only [Bool.not_eq_false, Registration.isOf, Bool.and_eq_true, decide_eq_true_eq] at hof
    exact hof.2
  have hmem : r.endpoint ∈ d.pool.endpoints := List.mem_map_of_mem hr
  rw [h.eq_of_index hmem hindex] at hmem
  exact hgone hmem

/-- A handle that has nothing to do with any registration but its own. -/
structure Confined (d : Desk) (e : Endpoint) : Prop where
  others : ∀ a : Errand, (d.handle (a.request e)).2.pool.others e = d.pool.others e
  gone : e ∉ d.pool.endpoints → (∀ a : Errand, (d.handle (a.request e)).2 = d) ∧
    d.handle (.remove e) = (.removed false, d) ∧ d.pool.errors? e = none ∧ d.pool.leases? e = none

/-- What a handle stands for, and that nothing is done to any other registration. -/
structure Resolves (d : Desk) (e : Endpoint) : Prop where
  own : ∀ r ∈ d.pool.entries, r.endpoint = e → d.pool.find? e = some r ∧
    ∀ a : Errand, (d.handle (a.request e)).2.pool.others e = d.pool.others e
  -- Its own registration is gone, and there are others with its address and user.
  twin : e ∉ d.pool.endpoints → ∀ before r after, d.pool.entries = before ++ r :: after →
    r.sameTarget e = true → (∀ x ∈ before, x.sameTarget e = false) →
      ∀ a : Errand, d.handle (a.request e) = d.handle (a.request r.endpoint) ∧
        (d.handle (a.request e)).2.pool.others r.endpoint = d.pool.others r.endpoint
  gone : (∀ r ∈ d.pool.entries, r.sameTarget e = false) → (∀ a : Errand, (d.handle (a.request e)).2 = d) ∧
    d.handle (.remove e) = (.removed false, d) ∧ d.pool.errors? e = none ∧ d.pool.leases? e = none
  kept : ∀ r ∈ d.pool.entries, r.endpoint ≠ e → e ∈ d.pool.endpoints ∨ r.sameTarget e = false →
    ∀ a : Errand, r ∈ (d.handle (a.request e)).2.pool.entries

theorem resolves_of_issued (h : d.Issued e) : d.Resolves e where
  own r hr he := by
    subst he
    have hfind := h.valid.find?_endpoint hr
    exact ⟨hfind, others_handle hfind⟩
  twin hgone before r after hsplit hr hbefore a := by
    have hpos := Pool.position?_twin (h.not_isOf hgone) hsplit hr hbefore
    have hentry : d.pool.entries[before.length]? = some r := by simp [hsplit]
    have hown := h.valid.position?_endpoint hentry
    refine ⟨handle_congr (hpos.trans hown.symm) a, others_handle ?_ a⟩
    rw [Pool.find?_of_position? hpos, hentry]
  gone hnone := by
    have hfind := Pool.find?_eq_none hnone
    exact ⟨handle_of_find?_none hfind, remove_of_find?_none hfind, by simp [Pool.errors?, hfind],
      by simp [Pool.leases?, hfind]⟩
  kept r hr hne hcase a := by
    cases hfind : d.pool.find? e with
    | none =>
      rw [handle_of_find?_none hfind]
      exact hr
    | some found =>
      have hmem : r.endpoint ∈ d.pool.endpoints := List.mem_map_of_mem hr
      apply Pool.mem_of_others_eq (others_handle hfind a) hr
      rcases hcase with hown | htarget
      · obtain ⟨r', hr', rfl⟩ := List.mem_map.mp hown
        obtain rfl : r' = found := Option.some.inj ((h.valid.find?_endpoint hr').symm.trans hfind)
        exact fun hindex => hne (h.eq_of_index hmem hindex)
      · intro hindex
        have hfound : found ∈ d.pool.entries := by
          obtain ⟨i, -, hi⟩ := Option.bind_eq_some_iff.mp hfind
          exact List.mem_of_getElem? hi
        rw [h.valid.eq_of_index hr hfound hindex, Pool.sameTarget_of_find? hfind] at htarget
        cases htarget

/-- Two registrations of one address, and a lease of the first. -/
def twins : Desk := ⟨⟨.default, Pool.registered [⟨0, "a", none⟩, ⟨0, "a", none⟩], 0, false⟩, .start false, 0⟩

/-- The lease of the first is held while the second is removed. -/
def twinRemoved : Desk := twins.handleAll [.hold ⟨0, "a", none⟩, .remove ⟨1, "a", none⟩]

theorem issued_twinRemoved : twinRemoved.Issued ⟨1, "a", none⟩ :=
  ⟨[⟨0, "a", none⟩, ⟨0, "a", none⟩], .default, twins.pool, .start false, 0, twins, by decide, .refl,
    Or.inl (by decide), reaches_handleAll twins _⟩

theorem resolves_twinRemoved : twinRemoved.Issued ⟨1, "a", none⟩ ∧ twinRemoved.Resolves ⟨1, "a", none⟩ :=
  ⟨issued_twinRemoved, resolves_of_issued issued_twinRemoved⟩

/-- The lease of the first is taken back through the handle of the second. -/
theorem not_confined_twinRemoved : twinRemoved.Issued ⟨1, "a", none⟩ ∧ ⟨1, "a", none⟩ ∉ twinRemoved.pool.endpoints ∧
    twinRemoved.pool.leases? ⟨0, "a", none⟩ = some 1 ∧
    (twinRemoved.handle (.release ⟨1, "a", none⟩)).2.pool.leases? ⟨0, "a", none⟩ = some 0 ∧
    ¬ ∀ d e, Desk.Issued d e → d.Confined e := by
  refine ⟨issued_twinRemoved, by decide, by decide, by decide, fun h => ?_⟩
  have hothers := (h twinRemoved ⟨1, "a", none⟩ issued_twinRemoved).others .release
  revert hothers
  decide

end Desk
end BatchJob.Endpoint
