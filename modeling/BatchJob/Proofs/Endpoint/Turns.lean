import BatchJob.Proofs.Endpoint.Waiting

/-! Taking turns. A removal takes one entry out of the rotation and leaves the order of the others, a choice in
turn puts one last; so two endpoints that are there all the time and never in quarantine are chosen in turns. -/
namespace BatchJob.Endpoint

/-- Between two of the one there is one of the other. -/
def Alternate (a b : Endpoint) (returns : List Endpoint) : Prop :=
  ∀ xs ys zs, returns = xs ++ a :: (ys ++ a :: zs) → a ∉ ys → ys.count b = 1

/-- Of the two endpoints, first the one and then the other, and so on. -/
def InTurn (x y : Endpoint) : List Endpoint → Prop
  | [] => True
  | e :: returns => e = x ∧ InTurn y x returns

def ofPair (a b : Endpoint) (l : List Endpoint) : List Endpoint := l.filter fun e => e = a ∨ e = b

section
variable {a b x y : Endpoint} {l l' : List Endpoint}

@[simp] theorem ofPair_append : ofPair a b (l ++ l') = ofPair a b l ++ ofPair a b l' := List.filter_append ..

theorem ofPair_comm : ofPair a b l = ofPair b a l := by simp [ofPair, or_comm]

theorem ofPair_cons_of_eq {e : Endpoint} (he : e = a ∨ e = b) : ofPair a b (e :: l) = e :: ofPair a b l := by
  simp [ofPair, he]

theorem ofPair_cons_of_ne {e : Endpoint} (he : ¬(e = a ∨ e = b)) : ofPair a b (e :: l) = ofPair a b l := by
  simp [ofPair, he]

theorem ofPair_eq_nil (ha : a ∉ l) (hb : b ∉ l) : ofPair a b l = [] := by
  rw [ofPair, List.filter_eq_nil_iff]
  intro e he
  have hea : e ≠ a := fun h => ha (h ▸ he)
  have heb : e ≠ b := fun h => hb (h ▸ he)
  simp [hea, heb]

theorem ofPair_eq_replicate (ha : a ∉ l) : ofPair a b l = List.replicate (l.count b) b := by
  rw [← List.filter_eq, ofPair]
  refine List.filter_congr fun e he => ?_
  have hea : e ≠ a := fun h => ha (h ▸ he)
  simp [hea]

theorem ofPair_eq_pair (hnodup : l.Nodup) (ha : a ∈ l) (hb : b ∈ l) (hab : a ≠ b) :
    ofPair a b l = [a, b] ∨ ofPair a b l = [b, a] := by
  obtain ⟨before, after, rfl⟩ := List.append_of_mem ha
  have hout : a ∉ before ++ after := (List.nodup_cons.mp (List.nodup_middle.mp hnodup)).1
  have hcount : before.count b + after.count b = 1 := by
    have hone := List.count_eq_one_of_mem hnodup hb
    rwa [List.count_append, List.count_cons_of_ne hab] at hone
  rw [ofPair_append, ofPair_cons_of_eq (Or.inl rfl),
    ofPair_eq_replicate fun h => hout (List.mem_append_left _ h),
    ofPair_eq_replicate fun h => hout (List.mem_append_right _ h)]
  rcases Nat.eq_zero_or_pos (before.count b) with h0 | hpos
  · left
    rw [h0, show after.count b = 1 by omega]
    rfl
  · right
    rw [show before.count b = 1 by omega, show after.count b = 0 by omega]
    rfl

theorem InTurn.of_append (h : InTurn x y (l ++ l')) : InTurn x y l' ∨ InTurn y x l' := by
  induction l generalizing x y with
  | nil => exact Or.inl h
  | cons e l ih => exact (ih h.2).symm

theorem alternate_of_inTurn (hab : a ≠ b) (h : InTurn a b (ofPair a b l) ∨ InTurn b a (ofPair a b l)) :
    Alternate a b l := by
  intro xs ys zs hl ha
  have hsplit : ofPair a b l =
      ofPair a b xs ++ a :: (List.replicate (ys.count b) b ++ a :: ofPair a b zs) := by
    rw [hl, ofPair_append, ofPair_cons_of_eq (Or.inl rfl), ofPair_append, ofPair_cons_of_eq (Or.inl rfl),
      ofPair_eq_replicate ha]
  rw [hsplit] at h
  have hfrom : InTurn b a (List.replicate (ys.count b) b ++ a :: ofPair a b zs) := by
    rcases h with h | h <;> rcases h.of_append with h | h
    · exact h.2
    · exact absurd h.1 hab
    · exact absurd h.1 hab
    · exact h.2
  cases hcount : ys.count b with
  | zero =>
    rw [hcount] at hfrom
    exact absurd hfrom.1 hab
  | succ n =>
    cases n with
    | zero => rfl
    | succ n =>
      rw [hcount, List.replicate_succ, List.replicate_succ] at hfrom
      exact absurd hfrom.2.1 hab.symm

end

namespace Pool
variable {p : Pool} {r : Registration} {i : Nat}

theorem rotation_removeAt_eq (p : Pool) (hi : i < p.entries.length) (hc : p.cursor ≤ p.entries.length) :
    (p.removeAt i).rotation =
      (p.entries.eraseIdx i).rotate (if i < p.cursor then p.cursor - 1 else p.cursor) := by
  have hlen : (p.entries.eraseIdx i).length = p.entries.length - 1 := List.length_eraseIdx_of_lt hi
  have hle : (if i < p.cursor then p.cursor - 1 else p.cursor) ≤ (p.entries.eraseIdx i).length := by
    split <;> omega
  rw [rotation, removeAt]
  generalize (if i < p.cursor then p.cursor - 1 else p.cursor) = cursor at hle ⊢
  by_cases hlt : cursor < (p.entries.eraseIdx i).length
  · simp only [if_pos hlt]
    exact (List.rotate_eq_drop_append_take hle).symm
  · have heq : cursor = (p.entries.eraseIdx i).length := by omega
    simp only [if_neg hlt, List.drop_zero, List.take_zero, List.append_nil]
    rw [heq, List.rotate_length]

theorem rotation_removeAt (h : p.Valid) (hr : p.entries[i]? = some r) :
    ∃ before after, p.rotation = before ++ r :: after ∧ (p.removeAt i).rotation = before ++ after := by
  obtain ⟨hi, hat⟩ := List.getElem?_eq_some_iff.mp hr
  obtain ⟨front, back, hentries, hfront⟩ : ∃ front back, p.entries = front ++ r :: back ∧ front.length = i :=
    ⟨p.entries.take i, p.entries.drop (i + 1),
      by rw [← hat, List.getElem_cons_drop, List.take_append_drop], by simp [Nat.le_of_lt hi]⟩
  have herase : p.entries.eraseIdx i = front ++ back := by
    rw [hentries, ← hfront, List.eraseIdx_append_of_length_le (Nat.le_refl _), Nat.sub_self]
    rfl
  have hc := h.cursor_le
  rw [rotation_removeAt_eq p hi hc, herase, h.rotation_eq]
  rw [hentries, List.length_append, List.length_cons] at hc
  rw [hentries]
  by_cases hlt : i < p.cursor
  · obtain ⟨k, hk⟩ : ∃ k, p.cursor = front.length + (k + 1) := ⟨p.cursor - i - 1, by omega⟩
    have hk' : p.cursor - 1 = front.length + k := by omega
    refine ⟨back.drop k ++ front, back.take k, ?_, ?_⟩
    · rw [List.rotate_eq_drop_append_take (by simpa using hc), hk, List.drop_length_add_append,
        List.take_length_add_append]
      simp
    · rw [if_pos hlt, List.rotate_eq_drop_append_take (by rw [List.length_append]; omega), hk',
        List.drop_length_add_append, List.take_length_add_append, List.append_assoc]
  · have hle : p.cursor ≤ front.length := by omega
    refine ⟨front.drop p.cursor, back ++ front.take p.cursor, ?_, ?_⟩
    · rw [List.rotate_eq_drop_append_take (by simpa using hc), List.drop_append_of_le_length hle,
        List.take_append_of_le_length hle, List.append_assoc, List.cons_append]
    · rw [if_neg hlt, List.rotate_eq_drop_append_take (by rw [List.length_append]; omega),
        List.drop_append_of_le_length hle, List.take_append_of_le_length hle, List.append_assoc]

theorem rotation_erase (h : p.Valid) (hr : p.entries[i]? = some r) :
    (p.removeAt i).rotation = p.rotation.erase r := by
  obtain ⟨before, after, hrot, hrot'⟩ := rotation_removeAt h hr
  have hout : r ∉ before := fun hmem => by
    have hnodup := h.nodup_rotation
    rw [hrot, List.nodup_middle, List.nodup_cons] at hnodup
    exact hnodup.1 (List.mem_append_left _ hmem)
  rw [hrot', hrot, List.erase_append_right _ hout, List.erase_cons_head]

/-- The endpoints in the order of their turns. -/
def turns (p : Pool) : List Endpoint := p.rotation.map (·.endpoint)

theorem turns_eq (p : Pool) : p.turns = p.endpoints.drop p.cursor ++ p.endpoints.take p.cursor := by
  rw [turns, rotation, List.map_append, List.map_drop, List.map_take, endpoints]

theorem turns_congr {q : Pool} (he : q.endpoints = p.endpoints) (hc : q.cursor = p.cursor) : q.turns = p.turns := by
  rw [turns_eq, turns_eq, he, hc]

theorem mem_turns {p : Pool} {e : Endpoint} : e ∈ p.turns ↔ e ∈ p.endpoints := by
  rw [turns_eq, List.mem_append, or_comm, ← List.mem_append, List.take_append_drop]

theorem Valid.nodup_turns (h : p.Valid) : p.turns.Nodup := by
  rw [turns_eq, ← List.rotate_eq_drop_append_take (by simpa [endpoints] using h.cursor_le), List.nodup_rotate]
  exact h.nodup_endpoints

theorem turns_put {r' : Registration} (hr : p.entries[i]? = some r) (he : r'.endpoint = r.endpoint) :
    (p.put i r').turns = p.turns :=
  turns_congr (map_put _ hr he) rfl

theorem turns_modify (p : Pool) (e : Endpoint) {f : Registration → Registration}
    (hf : ∀ r, (f r).endpoint = r.endpoint) : (p.modify e f).turns = p.turns := by
  rcases modify_cases p e f with ⟨-, heq⟩ | ⟨i, r, hr, -, heq⟩
  · rw [heq]
  · rw [heq]
    exact turns_put hr (hf r)

theorem turns_close (p : Pool) : p.close.turns = p.turns := by
  rw [close]
  split
  · rfl
  · exact turns_congr (by simp [endpoints, Function.comp_def]) rfl

theorem turns_removeAt (h : p.Valid) (hr : p.entries[i]? = some r) :
    ∃ before after, p.turns = before ++ r.endpoint :: after ∧ (p.removeAt i).turns = before ++ after := by
  obtain ⟨before, after, hrot, hrot'⟩ := rotation_removeAt h hr
  exact ⟨before.map (·.endpoint), after.map (·.endpoint), by simp [turns, hrot], by simp [turns, hrot']⟩

end Pool

def Response.granted? : Response → Option Endpoint
  | granted e => some e
  | _ => none

namespace Desk
variable {d d' : Desk} {a b x y : Endpoint} {q : Request} {requests : List Request}

/-- The order is kept, or one is taken out of it, or the first that is not in quarantine is chosen and comes
last. -/
inductive Moves (d : Desk) : Response × Desk → Prop
  | kept {response : Response} {d' : Desk} (hno : response.granted? = none)
      (hturns : d'.pool.turns = d.pool.turns) : Moves d (response, d')
  | erased {response : Response} {d' : Desk} {before after : List Endpoint} {e : Endpoint}
      (hno : response.granted? = none) (hold : d.pool.turns = before ++ e :: after)
      (hnew : d'.pool.turns = before ++ after) : Moves d (response, d')
  | passed {e : Endpoint} {d' : Desk} {before after : List Endpoint}
      (hold : d.pool.turns = before ++ e :: after) (hnew : d'.pool.turns = after ++ before ++ [e])
      (hover : ∀ y ∈ before, d.pool.quarantined y d'.now = true) : Moves d (.granted e, d')

theorem moves_get (h : d.pool.Valid) (hp : d.pool.settings.policy = .roundRobin) :
    Moves d (d.handle .get) := by
  rw [handle]
  rcases hget : d.get with ⟨answer, d'⟩
  cases answer with
  | error refusal => exact .kept rfl (by rw [(get_refused hget).1])
  | ok e =>
    obtain ⟨i, r, hi, rfl, hpool, hchosen⟩ := Pool.select?_cases h (get_granted hget).2.1
    rw [Pool.pick?, hp] at hi
    obtain ⟨before, r', after, hrot, hr', -, hbefore, hplace⟩ := Pool.turn?_cases h hi
    obtain rfl : r' = r := Option.some.inj (hr'.symm.trans hchosen.entry)
    have hnew := Pool.rotation_passTurn h hp hrot hplace
    have hold : d.pool.turns = before.map (·.endpoint) ++ r'.endpoint :: after.map (·.endpoint) := by
      simp [Pool.turns, hrot]
    refine .passed hold (by simp [Pool.turns, hpool, hnew]) fun y hy => ?_
    obtain ⟨x, hx, rfl⟩ := List.mem_map.mp hy
    exact (h.not_free_iff (Pool.mem_rotation.mp (by simp [hrot, hx]))).mpr (hbefore x hx)

theorem moves_handle (h : d.pool.Valid) (hp : d.pool.settings.policy = .roundRobin)
    (hq : ∀ n, q ≠ .getMany n) : Moves d (d.handle q) := by
  cases q with
  | get => exact moves_get h hp
  | getMany n => exact absurd rfl (hq n)
  | fail e leased =>
    change Moves d (.done, d.fail e leased)
    rcases Pool.fail_cases d.pool e leased d.now with
      ⟨-, heq⟩ | ⟨i, r, hr, -, ⟨-, heq⟩ | ⟨-, heq⟩ | ⟨-, heq⟩⟩
    · exact .kept rfl (by rw [Desk.fail, onPool, heq])
    · exact .kept rfl (by rw [Desk.fail, onPool, heq])
    · exact .kept rfl (by rw [Desk.fail, onPool, heq]; exact Pool.turns_put hr rfl)
    · obtain ⟨before, after, hold, hnew⟩ := Pool.turns_removeAt h hr
      exact .erased rfl hold (by rw [Desk.fail, onPool, heq]; exact hnew)
  | succeed e => exact .kept rfl (Pool.turns_modify d.pool e fun _ => rfl)
  | hold e => exact .kept rfl (Pool.turns_modify d.pool e fun _ => rfl)
  | release e => exact .kept rfl (Pool.turns_modify d.pool e fun _ => rfl)
  | remove e =>
    rcases Pool.remove_cases d.pool e with ⟨-, heq⟩ | ⟨i, r, hr, -, heq⟩
    · rw [handle, heq]
      exact .kept rfl rfl
    · rw [handle, heq]
      obtain ⟨before, after, hold, hnew⟩ := Pool.turns_removeAt h hr
      exact .erased rfl hold hnew
  | query e => exact .kept rfl rfl
  | close => exact .kept rfl (Pool.turns_close d.pool)
  | advance t => exact .kept rfl rfl

/-- A request for many endpoints, one by one. -/
def each : Request → List Request
  | .getMany n => List.replicate n .get
  | q => [q]

theorem ne_getMany_of_mem_each {q' : Request} (h : q' ∈ each q) (n : Nat) : q' ≠ .getMany n := by
  rintro rfl
  cases q <;> simp [each] at h

theorem handleAll_each (d : Desk) (requests : List Request) :
    d.handleAll (requests.flatMap each) = d.handleAll requests := by
  induction requests generalizing d with
  | nil => rfl
  | cons q requests ih =>
    have happend : d.handleAll (each q ++ requests.flatMap each) =
        (d.handleAll (each q)).handleAll (requests.flatMap each) := List.foldl_append
    rw [List.flatMap_cons, happend, ih, handleAll_cons]
    cases q with
    | getMany n => rw [each, handle_getMany]
    | _ => rfl

/-- The endpoints that are granted, in order. -/
def returns (d : Desk) : List Request → List Endpoint
  | [] => []
  | q :: requests => (d.handle q).1.granted?.toList ++ returns (d.handle q).2 requests

/-- Both are registered all the time, and not in quarantine whenever an endpoint is chosen. -/
def Steady (a b : Endpoint) (d : Desk) : List Request → Prop
  | [] => a ∈ d.pool.endpoints ∧ b ∈ d.pool.endpoints
  | q :: requests => (a ∈ d.pool.endpoints ∧ b ∈ d.pool.endpoints) ∧
    ((d.handle q).1.granted? ≠ none →
      d.pool.quarantined a (d.handle q).2.now = false ∧ d.pool.quarantined b (d.handle q).2.now = false) ∧
    Steady a b (d.handle q).2 requests

instance Steady.decidable (a b : Endpoint) : (d : Desk) → (requests : List Request) →
    Decidable (Steady a b d requests)
  | d, [] => inferInstanceAs (Decidable (a ∈ d.pool.endpoints ∧ b ∈ d.pool.endpoints))
  | d, q :: requests =>
    have := Steady.decidable a b (d.handle q).2 requests
    inferInstanceAs (Decidable (_ ∧ (_ → _) ∧ _))

theorem Steady.registered (h : Steady a b d requests) : a ∈ d.pool.endpoints ∧ b ∈ d.pool.endpoints := by
  cases requests with
  | nil => exact h
  | cons q requests => exact h.1

theorem inTurn_returns (h : d.pool.Valid) (hp : d.pool.settings.policy = .roundRobin)
    (hsingle : ∀ q ∈ requests, ∀ n, q ≠ .getMany n) (hsteady : Steady a b d requests)
    (hpair : ofPair a b d.pool.turns = [x, y]) : InTurn x y (ofPair a b (d.returns requests)) := by
  induction requests generalizing d x y with
  | nil => trivial
  | cons q requests ih =>
    obtain ⟨-, hfree, hrest⟩ := hsteady
    have hvalid : (d.handle q).2.pool.Valid := (follows_handle h q).pool.valid
    have hpolicy : (d.handle q).2.pool.settings.policy = .roundRobin := by
      rw [(follows_handle h q).pool.settings]
      exact hp
    have hq := hsingle q List.mem_cons_self
    have hlater := fun q' hq' => hsingle q' (List.mem_cons_of_mem q hq')
    have hmoves := moves_handle h hp hq
    rcases hh : d.handle q with ⟨response, d'⟩
    rw [hh] at hmoves hvalid hpolicy hrest hfree
    cases hmoves with
    | kept hno hturns =>
      rw [returns, hh, hno]
      exact ih hvalid hpolicy hlater hrest (by rw [hturns]; exact hpair)
    | erased hno hold hnew =>
      rename_i before after e
      rw [returns, hh, hno]
      have hmem : a ∈ before ++ after ∧ b ∈ before ++ after := by
        rw [← hnew, Pool.mem_turns, Pool.mem_turns]
        exact hrest.registered
      -- The entry that was taken out is neither of the two, as both are still registered.
      have hout : e ∉ before ++ after := by
        have hnodup := h.nodup_turns
        rw [hold, List.nodup_middle] at hnodup
        exact (List.nodup_cons.mp hnodup).1
      have hne : ¬(e = a ∨ e = b) := by
        rintro (rfl | rfl)
        · exact hout hmem.1
        · exact hout hmem.2
      refine ih hvalid hpolicy hlater hrest ?_
      rw [← hpair, hold, hnew, ofPair_append, ofPair_append, ofPair_cons_of_ne hne]
    | passed hold hnew hover =>
      rename_i e before after
      obtain ⟨ha, hb⟩ := hfree (by simp [Response.granted?])
      -- Those who were passed over are in quarantine, and the two are not.
      have hbefore : ofPair a b before = [] := by
        refine ofPair_eq_nil (fun hmem => ?_) fun hmem => ?_
        · simp [hover a hmem] at ha
        · simp [hover b hmem] at hb
      rw [hold, ofPair_append, hbefore, List.nil_append] at hpair
      have hturns : ofPair a b d'.pool.turns = ofPair a b after ++ ofPair a b [e] := by
        rw [hnew, ofPair_append, ofPair_append, hbefore, List.append_nil]
      rw [returns, hh]
      change InTurn x y (ofPair a b (e :: d'.returns requests))
      by_cases he : e = a ∨ e = b
      · rw [ofPair_cons_of_eq he] at hpair ⊢
        obtain ⟨rfl, hafter⟩ := List.cons.inj hpair
        refine ⟨rfl, ih hvalid hpolicy hlater hrest ?_⟩
        rw [hturns, hafter, ofPair_cons_of_eq he]
        rfl
      · rw [ofPair_cons_of_ne he] at hpair ⊢
        refine ih hvalid hpolicy hlater hrest ?_
        rw [hturns, hpair, ofPair_cons_of_ne he]
        rfl

/-- A request by which the pool gets smaller takes the entry of its endpoint out of the rotation. -/
theorem rotation_of_smaller (h : d.pool.Valid)
    (hlt : (d.handle q).2.pool.entries.length < d.pool.entries.length) :
    ∃ e r, (q = .remove e ∨ ∃ leased, q = .fail e leased) ∧ d.pool.find? e = some r ∧
      (d.handle q).2.pool.rotation = d.pool.rotation.erase r := by
  have hmodify : ∀ e f, (d.pool.modify e f).entries.length = d.pool.entries.length := by
    intro e f
    rcases Pool.modify_cases d.pool e f with ⟨-, heq⟩ | ⟨i, r, -, -, heq⟩ <;> simp [heq, Pool.put]
  cases q with
  | get =>
    rw [handle_get, entries_get h] at hlt
    exact absurd hlt (Nat.lt_irrefl _)
  | getMany n =>
    rw [handle_getMany, entries_gets h] at hlt
    exact absurd hlt (Nat.lt_irrefl _)
  | fail e leased =>
    -- Of all that a failure can come to, only the removal makes the pool smaller.
    change (d.pool.fail e leased d.now).entries.length < _ at hlt
    change ∃ e' r, _ ∧ _ ∧ (d.pool.fail e leased d.now).rotation = _
    rcases Pool.fail_cases d.pool e leased d.now with
      ⟨-, heq⟩ | ⟨i, r, hr, hfind, ⟨-, heq⟩ | ⟨-, heq⟩ | ⟨-, heq⟩⟩
    · rw [heq] at hlt
      exact absurd hlt (Nat.lt_irrefl _)
    · rw [heq] at hlt
      exact absurd hlt (Nat.lt_irrefl _)
    · rw [heq, Pool.put, List.length_set] at hlt
      exact absurd hlt (Nat.lt_irrefl _)
    · exact ⟨e, r, Or.inr ⟨leased, rfl⟩, hfind, by rw [heq, Pool.rotation_erase h hr]⟩
  | succeed e => exact absurd hlt (Nat.not_lt.mpr (Nat.le_of_eq (hmodify e _).symm))
  | hold e => exact absurd hlt (Nat.not_lt.mpr (Nat.le_of_eq (hmodify e _).symm))
  | release e => exact absurd hlt (Nat.not_lt.mpr (Nat.le_of_eq (hmodify e _).symm))
  | remove e =>
    rcases Pool.remove_cases d.pool e with ⟨-, heq⟩ | ⟨i, r, hr, hfind, heq⟩
    · rw [handle, heq] at hlt
      exact absurd hlt (Nat.lt_irrefl _)
    · exact ⟨e, r, Or.inl rfl, hfind, by rw [handle, heq, Pool.rotation_erase h hr]⟩
  | query e => exact absurd hlt (Nat.lt_irrefl _)
  | close =>
    change d.pool.close.entries.length < _ at hlt
    rw [Pool.close] at hlt
    split at hlt <;> simp at hlt
  | advance t => exact absurd hlt (Nat.lt_irrefl _)

/-- Neither of the two is passed over or chosen again before the other, and a removal on the way takes nothing
but the removed entry out of the rotation. -/
structure Fair (a b : Endpoint) (d : Desk) (requests : List Request) : Prop where
  single : d.handleAll (requests.flatMap each) = d.handleAll requests
  alternate : Alternate a b (d.returns (requests.flatMap each))
  alternate' : Alternate b a (d.returns (requests.flatMap each))
  erased : ∀ first q rest, requests = first ++ q :: rest →
    ((d.handleAll first).handle q).2.pool.entries.length < (d.handleAll first).pool.entries.length →
    ∃ e r, (q = .remove e ∨ ∃ leased, q = .fail e leased) ∧ (d.handleAll first).pool.find? e = some r ∧
      ((d.handleAll first).handle q).2.pool.rotation = (d.handleAll first).pool.rotation.erase r

/-- From any desk on that is reached from a pool with turns, two endpoints that are steadily healthy are chosen
in turns, whatever happens to the others. -/
theorem fair_of_steady {given : List Endpoint} {s : Settings} {p : Pool} (h : Pool.build given s = .ok p)
    (hp : s.policy = .roundRobin) (clock : Clock) (draws : Nat) (past requests : List Request) (hab : a ≠ b)
    (hsteady : Steady a b ((Desk.mk p clock draws).handleAll past) (requests.flatMap each)) :
    Fair a b ((Desk.mk p clock draws).handleAll past) requests := by
  have hv : (Desk.mk p clock draws).pool.Valid := Pool.valid_build h
  have hpast := follows_handleAll hv past
  generalize hd : (Desk.mk p clock draws).handleAll past = d at hsteady hpast
  have hvalid := hpast.pool.valid
  have hpolicy : d.pool.settings.policy = .roundRobin := by
    rw [hpast.pool.settings]
    change p.settings.policy = _
    rw [Pool.build_eq h]
    exact hp
  have hsingle : ∀ q ∈ requests.flatMap each, ∀ n, q ≠ .getMany n := by
    intro q hq n
    obtain ⟨q', -, hq'⟩ := List.mem_flatMap.mp hq
    exact ne_getMany_of_mem_each hq' n
  obtain ⟨ha, hb⟩ := hsteady.registered
  have hin := (ofPair_eq_pair hvalid.nodup_turns (Pool.mem_turns.mpr ha) (Pool.mem_turns.mpr hb) hab).imp
    (inTurn_returns hvalid hpolicy hsingle hsteady) (inTurn_returns hvalid hpolicy hsingle hsteady)
  constructor
  case single => exact handleAll_each d requests
  case alternate => exact alternate_of_inTurn hab hin
  case alternate' =>
    rw [ofPair_comm] at hin
    exact alternate_of_inTurn hab.symm hin.symm
  case erased =>
    intro first q rest _ hlt
    exact rotation_of_smaller (follows_handleAll hvalid first).pool.valid hlt

/-- The first and the last of four endpoints stay, while the second fails and the third is removed. -/
def otherTwoLeave : List Request :=
  [.get, .get, .fail ⟨1, "b", none⟩ none, .get, .remove ⟨2, "c", none⟩, .get, .get, .get]

theorem fair_of_otherTwoLeave :
    let s : Settings := ⟨.roundRobin, 1, .ofSeconds 60, 0, none⟩
    let given : List Endpoint := [⟨0, "a", none⟩, ⟨1, "b", none⟩, ⟨2, "c", none⟩, ⟨3, "d", none⟩]
    let p : Pool := ⟨s, Pool.registered given, 0, false⟩
    let d : Desk := (Desk.mk p (.start false) 0).handleAll []
    Pool.build given s = .ok p ∧ Steady ⟨0, "a", none⟩ ⟨3, "d", none⟩ d (otherTwoLeave.flatMap each) ∧
      Fair ⟨0, "a", none⟩ ⟨3, "d", none⟩ d otherTwoLeave ∧
      (d.returns (otherTwoLeave.flatMap each)).map (·.address) = ["a", "b", "c", "d", "a", "d"] := by
  intro s given p d
  have hbuild : Pool.build given s = .ok p := by decide
  have hsteady : Steady ⟨0, "a", none⟩ ⟨3, "d", none⟩ d (otherTwoLeave.flatMap each) := by decide +kernel
  exact ⟨hbuild, hsteady, fair_of_steady hbuild rfl (.start false) 0 [] otherTwoLeave (by decide) hsteady,
    by decide +kernel⟩

end Desk
end BatchJob.Endpoint
