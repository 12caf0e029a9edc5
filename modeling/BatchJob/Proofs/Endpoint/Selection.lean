import BatchJob.Proofs.Endpoint.Entries

/-! What the policies choose. The places are those of the free entries only; a turn goes to the first free entry
of the rotation and puts it last, and the least loaded entry is the first of those with the fewest leases. -/
namespace BatchJob.Endpoint.Pool
variable {p q : Pool} {e : Endpoint} {r : Registration} {i draw : Nat} {now : Duration} {places : List Nat}

theorem Valid.rotation_eq (h : p.Valid) : p.rotation = p.entries.rotate p.cursor :=
  (List.rotate_eq_drop_append_take h.cursor_le).symm

theorem mem_rotation : r ∈ p.rotation ↔ r ∈ p.entries := by
  rw [rotation, List.mem_append, or_comm, ← List.mem_append, List.take_append_drop]

theorem Valid.nodup_rotation (h : p.Valid) : p.rotation.Nodup := by
  rw [h.rotation_eq, List.nodup_rotate]
  exact h.nodup_entries

theorem turn?_cases (h : p.Valid) (hi : p.turn? now = some i) :
    ∃ before r after, p.rotation = before ++ r :: after ∧ p.entries[i]? = some r ∧
      r.isFree p.settings now = true ∧ (∀ x ∈ before, x.isFree p.settings now = false) ∧
      i = (p.cursor + before.length) % p.entries.length := by
  rw [turn?, Option.map_eq_some_iff] at hi
  obtain ⟨steps, hsteps, rfl⟩ := hi
  obtain ⟨hlt, hfree, hbefore⟩ := List.findIdx?_eq_some_iff_getElem.mp hsteps
  have hlen : p.rotation.length = p.entries.length := by rw [h.rotation_eq, List.length_rotate]
  refine ⟨p.rotation.take steps, p.rotation[steps], p.rotation.drop (steps + 1), ?_, ?_, hfree, ?_, ?_⟩
  · rw [List.getElem_cons_drop, List.take_append_drop]
  · rw [Nat.add_comm, ← List.getElem?_rotate (hlen ▸ hlt), ← h.rotation_eq, List.getElem?_eq_getElem hlt]
  · intro x hx
    obtain ⟨j, hj, rfl⟩ := List.mem_take_iff_getElem.mp hx
    exact Bool.eq_false_iff.mpr (hbefore j (by omega))
  · rw [List.length_take, Nat.min_eq_left (Nat.le_of_lt hlt)]

/-- Whose turn it was is last in the rotation, and those who were passed over come before it. -/
theorem rotation_passTurn (h : p.Valid) (hp : p.settings.policy = .roundRobin) {before after : List Registration}
    (hrot : p.rotation = before ++ r :: after)
    (hi : i = (p.cursor + before.length) % p.entries.length) :
    (p.passTurn i).rotation = after ++ before ++ [r] := by
  have hlen : before.length + (after.length + 1) = p.entries.length := by
    rw [← List.length_rotate p.entries p.cursor, ← h.rotation_eq, hrot]
    simp
  have hpos : 0 < p.entries.length := by omega
  have hcursor : (p.passTurn i).cursor = (p.cursor + (before.length + 1)) % p.entries.length := by
    rw [passTurn, hp, hi]
    simp only [Nat.mod_add_mod, Nat.add_assoc]
  have hentries : (p.passTurn i).entries = p.entries := by rw [passTurn, hp]
  have hle : (p.passTurn i).cursor ≤ (p.passTurn i).entries.length := by
    rw [hcursor, hentries]
    exact Nat.le_of_lt (Nat.mod_lt _ hpos)
  have hsplit : p.rotation = (before ++ [r]) ++ after := by simp [hrot]
  calc (p.passTurn i).rotation
      = p.entries.rotate (p.cursor + (before.length + 1)) := by
        rw [rotation, ← List.rotate_eq_drop_append_take hle, hcursor, hentries, List.rotate_mod]
    _ = p.rotation.rotate (before ++ [r]).length := by
        rw [h.rotation_eq, List.rotate_rotate, List.length_append, List.length_singleton]
    _ = after ++ before ++ [r] := by
        rw [hsplit, List.rotate_append_length_eq, List.append_assoc]

theorem leastLoaded?_snoc (p : Pool) (places : List Nat) (j : Nat) :
    p.leastLoaded? (places ++ [j]) =
      match p.leastLoaded? places with
      | none => some j
      | some b => if p.leasesAt j < p.leasesAt b then some j else some b := by
  rw [leastLoaded?, List.foldl_append]
  rfl

theorem leastLoaded?_eq_none (p : Pool) {places : List Nat} : p.leastLoaded? places = none ↔ places = [] := by
  rcases List.eq_nil_or_concat' places with rfl | ⟨places, j, rfl⟩
  · exact ⟨fun _ => rfl, fun _ => rfl⟩
  · rw [leastLoaded?_snoc]
    cases p.leastLoaded? places with
    | none => simp
    | some b => by_cases hlt : p.leasesAt j < p.leasesAt b <;> simp [hlt]

theorem leastLoaded?_cases (hi : p.leastLoaded? places = some i) :
    ∃ before after, places = before ++ i :: after ∧ (∀ j ∈ before, p.leasesAt i < p.leasesAt j) ∧
      ∀ j ∈ after, p.leasesAt i ≤ p.leasesAt j := by
  induction places using List.reverseRecOn generalizing i with
  | nil => cases hi
  | append_singleton places j ih =>
    rw [leastLoaded?_snoc] at hi
    cases hb : p.leastLoaded? places with
    | none =>
      rw [hb] at hi
      obtain rfl := Option.some.inj hi
      rw [(leastLoaded?_eq_none p).mp hb]
      exact ⟨[], [], rfl, by simp, by simp⟩
    | some b =>
      obtain ⟨before, after, hsplit, hbefore, hafter⟩ := ih hb
      simp only [hb] at hi
      split at hi
      case isTrue hlt =>
        obtain rfl := Option.some.inj hi
        refine ⟨places, [], rfl, fun k hk => ?_, by simp⟩
        have hle : p.leasesAt b ≤ p.leasesAt k := by
          rw [hsplit] at hk
          rcases List.mem_append.mp hk with hk | hk
          · exact Nat.le_of_lt (hbefore k hk)
          · rcases List.mem_cons.mp hk with rfl | hk
            · exact Nat.le_refl _
            · exact hafter k hk
        exact Nat.lt_of_lt_of_le hlt hle
      case isFalse hge =>
        obtain rfl := Option.some.inj hi
        refine ⟨before, after ++ [j], by simp [hsplit], hbefore, fun k hk => ?_⟩
        rcases List.mem_append.mp hk with hk | hk
        · exact hafter k hk
        · rw [List.mem_singleton.mp hk]
          exact Nat.le_of_not_lt hge

theorem mem_freePlaces {j : Nat} :
    j ∈ p.freePlaces now ↔ ∃ r, p.entries[j]? = some r ∧ r.isFree p.settings now = true := by
  rw [freePlaces, List.mem_filter, List.mem_range, free]
  constructor
  · rintro ⟨hlt, hfree⟩
    exact ⟨p.entries[j], List.getElem?_eq_getElem hlt, by simpa [hlt] using hfree⟩
  · rintro ⟨r, hr, hfree⟩
    exact ⟨(List.getElem?_eq_some_iff.mp hr).1, by simpa [hr] using hfree⟩

/-- The entry at the place is a choice of the policy at this time: in turn, the first of the rotation that is not in
quarantine, and by load, the first of those with the fewest leases. -/
structure Chosen (p : Pool) (now : Duration) (i : Nat) (r : Registration) : Prop where
  entry : p.entries[i]? = some r
  free : p.quarantined r.endpoint now = false
  first : p.settings.policy = .roundRobin → ∃ before after, p.rotation = before ++ r :: after ∧
    ∀ x ∈ before, p.quarantined x.endpoint now = true
  least : p.settings.policy = .load → ∀ j x, p.entries[j]? = some x → p.quarantined x.endpoint now = false →
    r.leases ≤ x.leases ∧ (j < i → r.leases < x.leases)

theorem Valid.free_iff (h : p.Valid) (hr : r ∈ p.entries) :
    p.quarantined r.endpoint now = false ↔ r.isFree p.settings now = true := by
  rw [h.quarantined_endpoint hr, Bool.not_eq_false']

theorem Valid.not_free_iff (h : p.Valid) (hr : r ∈ p.entries) :
    p.quarantined r.endpoint now = true ↔ r.isFree p.settings now = false := by
  rw [h.quarantined_endpoint hr, Bool.not_eq_true']

theorem chosen_of_turn? (h : p.Valid) (hp : p.settings.policy = .roundRobin) (hi : p.turn? now = some i) :
    ∃ r, p.Chosen now i r := by
  obtain ⟨before, r, after, hrot, hr, hfree, hbefore, -⟩ := turn?_cases h hi
  have hmem : r ∈ p.entries := List.mem_of_getElem? hr
  refine ⟨r, hr, (h.free_iff hmem).mpr hfree, fun _ => ⟨before, after, hrot, fun x hx => ?_⟩, by simp [hp]⟩
  exact (h.not_free_iff (mem_rotation.mp (by simp [hrot, hx]))).mpr (hbefore x hx)

theorem chosen_of_mem_freePlaces (h : p.Valid) (hp : p.settings.policy = .random)
    (hi : i ∈ p.freePlaces now) : ∃ r, p.Chosen now i r := by
  obtain ⟨r, hr, hfree⟩ := mem_freePlaces.mp hi
  exact ⟨r, hr, (h.free_iff (List.mem_of_getElem? hr)).mpr hfree, by simp [hp], by simp [hp]⟩

theorem chosen_of_leastLoaded? (h : p.Valid) (hp : p.settings.policy = .load)
    (hi : p.leastLoaded? (p.freePlaces now) = some i) : ∃ r, p.Chosen now i r := by
  obtain ⟨before, after, hplaces, hbefore, hafter⟩ := leastLoaded?_cases hi
  obtain ⟨r, hr, hfree⟩ := mem_freePlaces.mp (hplaces ▸ List.mem_append_right _ List.mem_cons_self)
  have hleases : ∀ j x, p.entries[j]? = some x → p.leasesAt j = x.leases := by
    intro j x hx
    simp [leasesAt, hx]
  have hsorted : (before ++ i :: after).Pairwise (· < ·) := by
    rw [← hplaces]
    exact List.pairwise_lt_range.filter _
  refine ⟨r, hr, (h.free_iff (List.mem_of_getElem? hr)).mpr hfree, by simp [hp], fun _ j x hx hfree' => ?_⟩
  have hj : j ∈ before ++ i :: after :=
    hplaces ▸ mem_freePlaces.mpr ⟨x, hx, (h.free_iff (List.mem_of_getElem? hx)).mp hfree'⟩
  rw [← hleases i r hr, ← hleases j x hx]
  rcases List.mem_append.mp hj with hj | hj
  · exact ⟨Nat.le_of_lt (hbefore j hj), fun _ => hbefore j hj⟩
  · have hij : i ≤ j := by
      rcases List.mem_cons.mp hj with rfl | hj
      · exact Nat.le_refl _
      · exact Nat.le_of_lt (List.rel_of_pairwise_cons (List.pairwise_append.mp hsorted).2.1 hj)
    refine ⟨?_, fun hlt => absurd hlt (Nat.not_lt.mpr hij)⟩
    rcases List.mem_cons.mp hj with rfl | hj
    · exact Nat.le_refl _
    · exact hafter j hj

theorem select?_cases (h : p.Valid) (hs : p.select? now draw = some (e, q)) :
    ∃ i r, p.pick? now draw = some i ∧ e = r.endpoint ∧ q = p.passTurn i ∧ p.Chosen now i r := by
  simp only [select?, Option.bind_eq_bind, Option.bind_eq_some_iff, Option.pure_def, Option.some.injEq,
    Prod.mk.injEq] at hs
  obtain ⟨i, hi, r, hr, rfl, rfl⟩ := hs
  have hchosen : ∃ r', p.Chosen now i r' := by
    rw [pick?] at hi
    cases hp : p.settings.policy with
    | roundRobin => exact chosen_of_turn? h hp (by simpa [hp] using hi)
    | random =>
      simp only [hp] at hi
      exact chosen_of_mem_freePlaces h hp (List.mem_of_getElem? hi)
    | load => exact chosen_of_leastLoaded? h hp (by simpa [hp] using hi)
  obtain ⟨r', hr'⟩ := hchosen
  obtain rfl : r' = r := Option.some.inj (hr'.entry.symm.trans hr)
  exact ⟨i, r', hi, rfl, rfl, hr'⟩

/-- As long as an entry is free, every policy finds one, however the choice falls. -/
theorem exists_select? (hr : r ∈ p.entries) (hfree : r.isFree p.settings now = true) (draw : Nat) :
    ∃ e q, p.select? now draw = some (e, q) := by
  obtain ⟨i, hi⟩ := List.getElem?_of_mem hr
  have hplaces : p.freePlaces now ≠ [] := List.ne_nil_of_mem (mem_freePlaces.mpr ⟨r, hi, hfree⟩)
  have hpick : ∃ j, p.pick? now draw = some j ∧ j < p.entries.length := by
    rw [pick?]
    cases hp : p.settings.policy with
    | roundRobin =>
      have hany : (p.rotation.findIdx? (·.isFree p.settings now)).isSome = true :=
        List.findIdx?_isSome ▸ List.any_eq_true.mpr ⟨r, mem_rotation.mpr hr, hfree⟩
      obtain ⟨steps, hsteps⟩ := Option.isSome_iff_exists.mp hany
      refine ⟨(p.cursor + steps) % p.entries.length, by simp [turn?, hsteps], ?_⟩
      exact Nat.mod_lt _ (List.length_pos_of_mem hr)
    | random =>
      have hlt : draw % (p.freePlaces now).length < (p.freePlaces now).length :=
        Nat.mod_lt _ (List.length_pos_iff.mpr hplaces)
      refine ⟨(p.freePlaces now)[draw % (p.freePlaces now).length], List.getElem?_eq_getElem hlt, ?_⟩
      obtain ⟨x, hx, -⟩ := mem_freePlaces.mp (List.getElem_mem hlt)
      exact (List.getElem?_eq_some_iff.mp hx).1
    | load =>
      obtain ⟨j, hj⟩ := Option.ne_none_iff_exists'.mp (mt (leastLoaded?_eq_none p).mp hplaces)
      obtain ⟨before, after, hsplit, -⟩ := leastLoaded?_cases hj
      obtain ⟨x, hx, -⟩ := mem_freePlaces.mp (hsplit ▸ List.mem_append_right _ List.mem_cons_self)
      exact ⟨j, hj, (List.getElem?_eq_some_iff.mp hx).1⟩
  obtain ⟨j, hj, hlt⟩ := hpick
  exact ⟨p.entries[j].endpoint, p.passTurn j, by simp [select?, hj, hlt]⟩

end BatchJob.Endpoint.Pool
