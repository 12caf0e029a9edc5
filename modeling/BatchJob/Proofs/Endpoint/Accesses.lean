import BatchJob.Proofs.Endpoint.Health
import BatchJob.Proofs.Endpoint.Handles

/-! What is done to a pool, one caller at a time. An access leaves all entries as they are, leases and turns apart,
makes a report to one entry, or takes one out. The limit for errors takes one out only where others are left. -/
namespace BatchJob.Endpoint

/-- What a caller does to a pool while no other can: one look for an endpoint, or one of the other requests that
change something. The time is what the caller has read from the clock, maybe before others had their turn. -/
inductive Access where
  | look (now : Duration) (draw waits : Nat)
  | fail (e : Endpoint) (leased : Option Duration) (now : Duration)
  | succeed (e : Endpoint)
  | hold (e : Endpoint)
  | release (e : Endpoint)
  | remove (e : Endpoint)
  | close
  deriving DecidableEq, Repr

def Access.read : Access → Duration
  | look now _ _ => now
  | fail _ _ now => now
  | _ => .zero

namespace Report

/-- A failure is noted unless the last one that was is later than its lease; a success strikes all of them out. -/
def note (failures : List Duration) : Report → List Duration
  | failed leased time => if leased.all fun l => failures.head?.all (· ≤ l) then time :: failures else failures
  | succeeded => []

/-- The failures that were noted since the last success, the last one first. -/
def noted (reports : List Report) : List Duration := reports.foldl note []

theorem noted_snoc (reports : List Report) (report : Report) :
    noted (reports ++ [report]) = note (noted reports) report := by
  simp [noted]

end Report

namespace Registration

def bare (r : Registration) : Registration := { r with leases := 0 }

/-- What becomes of it when a report is made. -/
def hears (r : Registration) : Report → Registration
  | .failed leased now => if r.counts leased then r.fail now else r
  | .succeeded => r.recover

variable {r : Registration}

@[simp] theorem bare_endpoint (r : Registration) : r.bare.endpoint = r.endpoint := rfl

@[simp] theorem bare_errors (r : Registration) : r.bare.errors = r.errors := rfl

@[simp] theorem bare_lastFailure (r : Registration) : r.bare.lastFailure = r.lastFailure := rfl

@[simp] theorem hears_endpoint (r : Registration) (report : Report) : (r.hears report).endpoint = r.endpoint := by
  cases report with
  | failed leased now =>
    rw [hears]
    split <;> rfl
  | succeeded => rfl

theorem bare_hears (r : Registration) (report : Report) : (r.hears report).bare = r.bare.hears report := by
  cases report with
  | failed leased now =>
    have hcounts : r.bare.counts leased = r.counts leased := by cases leased <;> rfl
    simp only [hears, hcounts]
    split <;> rfl
  | succeeded => rfl

theorem errors_hears (h : r.lastFailure = none → r.errors = 0) (report : Report) :
    (r.hears report).lastFailure = none → (r.hears report).errors = 0 := by
  cases report with
  | failed leased now =>
    rw [hears]
    split
    · simp [Registration.fail]
    · exact h
  | succeeded => exact fun _ => rfl

def hearsAll (r : Registration) (reports : List Report) : Registration := reports.foldl hears r

@[simp] theorem hearsAll_nil (r : Registration) : r.hearsAll [] = r := rfl

@[simp] theorem hearsAll_cons (r : Registration) (report : Report) (reports : List Report) :
    r.hearsAll (report :: reports) = (r.hears report).hearsAll reports := rfl

theorem hearsAll_append (r : Registration) (reports later : List Report) :
    r.hearsAll (reports ++ later) = (r.hearsAll reports).hearsAll later :=
  List.foldl_append

theorem hearsAll_noted (he : r.errors = 0) (hl : r.lastFailure = none) (reports : List Report) :
    (r.hearsAll reports).errors = .ofNat (Report.noted reports).length ∧
      (r.hearsAll reports).lastFailure = (Report.noted reports).head? := by
  induction reports using List.reverseRecOn with
  | nil => exact ⟨he, hl⟩
  | append_singleton reports report ih =>
    obtain ⟨herrors, hlast⟩ := ih
    rw [hearsAll_append, hearsAll_cons, hearsAll_nil, Report.noted_snoc]
    cases report with
    | succeeded => exact ⟨rfl, rfl⟩
    | failed leased time =>
      have hcounts : (r.hearsAll reports).counts leased =
          leased.all fun l => (Report.noted reports).head?.all (· ≤ l) := by
        rw [← hlast]
        cases leased with
        | none => rfl
        | some l => cases h : (r.hearsAll reports).lastFailure <;> simp [counts, h]
      rw [hears, Report.note, hcounts]
      split
      · exact ⟨by simp [Registration.fail, herrors, UInt32.ofNat_add], rfl⟩
      · exact ⟨herrors, hlast⟩

end Registration

namespace Pool
variable {p q : Pool} {a : Access} {r x : Registration} {s : Settings} {given : List Endpoint} {i : Nat}
variable {accesses : List Access}

def after (p : Pool) : Access → Pool
  | .look now draw waits =>
    match p.look now draw waits with
    | .granted _ q => q
    | _ => p
  | .fail e leased now => p.fail e leased now
  | .succeed e => p.succeed e
  | .hold e => p.hold e
  | .release e => p.release e
  | .remove e => (p.remove e).2
  | .close => p.close

def afterAll (p : Pool) (accesses : List Access) : Pool := accesses.foldl after p

/-- What an access tells of the registration with this index. -/
def told (p : Pool) (i : Nat) : Access → List Report
  | .fail e leased now => if (p.find? e).any (·.endpoint.index = i) then [.failed leased now] else []
  | .succeed e => if (p.find? e).any (·.endpoint.index = i) then [.succeeded] else []
  | _ => []

@[simp] theorem afterAll_nil (p : Pool) : p.afterAll [] = p := rfl

@[simp] theorem afterAll_cons (p : Pool) (a : Access) (accesses : List Access) :
    p.afterAll (a :: accesses) = (p.after a).afterAll accesses := rfl

theorem afterAll_append (p : Pool) (accesses later : List Access) :
    p.afterAll (accesses ++ later) = (p.afterAll accesses).afterAll later :=
  List.foldl_append

/-- An access leaves what is heard of the entries as it is, makes a report to one entry, or takes one out. Who has a
report made to him reaches the limit and stays only as the last one. -/
inductive Effect (p : Pool) (a : Access) : Pool → Prop
  | aside {q : Pool} (silent : ∀ i, p.told i a = []) (settings : q.settings = p.settings)
    (entries : q.entries.map Registration.bare = p.entries.map Registration.bare)
    (cursor : q.cursor = p.cursor ∨ q.cursor < p.entries.length) : Effect p a q
  | told {i : Nat} {r : Registration} {report : Report} (entry : p.entries[i]? = some r)
    (told : ∀ j, p.told j a = if r.endpoint.index = j then [report] else [])
    (limit : ∀ l, p.settings.removeAfter = some l → l ≤ (r.hears report).errors.toNat →
      l ≤ r.errors.toNat ∨ p.entries.length ≤ 1) : Effect p a (p.put i (r.hears report))
  | removed {i : Nat} {r : Registration} (entry : p.entries[i]? = some r)
    (others : ∀ j, j ≠ r.endpoint.index → p.told j a = [])
    (others_left : (∃ e, a = .remove e) ∨ 1 < p.entries.length) : Effect p a (p.removeAt i)

theorem effect_refl (h : ∀ i, p.told i a = []) : Effect p a p := .aside h rfl rfl (Or.inl rfl)

theorem entry_of_select? {now : Duration} {draw : Nat} {e : Endpoint} (h : p.select? now draw = some (e, q)) :
    ∃ i r, p.entries[i]? = some r ∧ e = r.endpoint ∧ q = p.passTurn i := by
  simp only [select?, Option.bind_eq_bind, Option.bind_eq_some_iff, Option.pure_def, Option.some.injEq,
    Prod.mk.injEq] at h
  obtain ⟨i, -, r, hr, rfl, rfl⟩ := h
  exact ⟨i, r, hr, rfl, rfl⟩

theorem effect_passTurn (h : ∀ i, p.told i a = []) (hr : p.entries[i]? = some r) : Effect p a (p.passTurn i) := by
  rw [passTurn]
  split
  · refine .aside h rfl rfl (Or.inr (Nat.mod_lt _ ?_))
    exact Nat.zero_lt_of_lt (List.getElem?_eq_some_iff.mp hr).1
  · exact effect_refl h

theorem effect_look (p : Pool) (now : Duration) (draw waits : Nat) :
    Effect p (.look now draw waits) (p.after (.look now draw waits)) := by
  have hsilent : ∀ i, p.told i (.look now draw waits) = [] := fun _ => rfl
  rw [after]
  split
  case h_1 e q hlook =>
    obtain ⟨i, r, hr, -, rfl⟩ := entry_of_select? (look_granted hlook).2
    exact effect_passTurn hsilent hr
  case h_2 => exact effect_refl hsilent

theorem told_fail (hfind : p.find? e = some r) (leased : Option Duration) (now : Duration) (j : Nat) :
    p.told j (.fail e leased now) = if r.endpoint.index = j then [.failed leased now] else [] := by
  simp [told, hfind]

theorem effect_fail (p : Pool) (e : Endpoint) (leased : Option Duration) (now : Duration) :
    Effect p (.fail e leased now) (p.fail e leased now) := by
  rcases fail_limit_cases p e leased now with ⟨hfind, heq⟩ | ⟨i, r, hr, hfind, hcase⟩
  · rw [heq]
    exact effect_refl fun i => by simp [told, hfind]
  have htold := told_fail hfind leased now
  rcases hcase with ⟨hc, heq⟩ | ⟨hc, heq, hlimit⟩ | ⟨-, heq, hleft⟩
  · have hsame : r.hears (.failed leased now) = r := by simp [Registration.hears, hc]
    have heffect := Effect.told hr htold fun l _ hle => Or.inl (by rwa [hsame] at hle)
    rw [hsame, put_self hr] at heffect
    rwa [heq]
  · have hheard : r.hears (.failed leased now) = r.fail now := by simp [Registration.hears, hc]
    rw [heq, ← hheard]
    exact .told hr htold fun l hl hle => Or.inr (hlimit l hl (by rwa [hheard] at hle))
  · rw [heq]
    exact .removed hr (fun j hj => by simp [htold, Ne.symm hj]) (Or.inr hleft)

theorem effect_modify {f : Registration → Registration} (h : ∀ i, p.told i a = []) (e : Endpoint)
    (hf : ∀ r, (f r).bare = r.bare) : Effect p a (p.modify e f) := by
  rcases modify_cases p e f with ⟨-, heq⟩ | ⟨i, r, hr, -, heq⟩
  · rw [heq]
    exact effect_refl h
  · rw [heq]
    exact .aside h rfl (map_put _ hr (hf r)) (Or.inl rfl)

theorem effect_succeed (p : Pool) (e : Endpoint) : Effect p (.succeed e) (p.succeed e) := by
  rw [succeed]
  rcases modify_cases p e .recover with ⟨hfind, heq⟩ | ⟨i, r, hr, hfind, heq⟩
  · rw [heq]
    exact effect_refl fun i => by simp [told, hfind]
  · rw [heq]
    have htold : ∀ j, p.told j (.succeed e) = if r.endpoint.index = j then [.succeeded] else [] := fun j => by
      simp [told, hfind]
    exact .told hr htold fun l _ hle => Or.inl (Nat.le_trans hle (Nat.zero_le _))

theorem effect_remove (p : Pool) (e : Endpoint) : Effect p (.remove e) (p.remove e).2 := by
  rcases remove_cases p e with ⟨-, heq⟩ | ⟨i, r, hr, -, heq⟩
  · rw [heq]
    exact effect_refl fun _ => rfl
  · rw [heq]
    exact .removed hr (fun _ _ => rfl) (Or.inl ⟨e, rfl⟩)

theorem effect_close (p : Pool) : Effect p .close p.close := by
  have hsilent : ∀ i, p.told i .close = [] := fun _ => rfl
  rw [close]
  split
  · exact effect_refl hsilent
  · refine .aside hsilent rfl ?_ (Or.inl rfl)
    rw [List.map_map]
    rfl

theorem effect_after (p : Pool) (a : Access) : Effect p a (p.after a) := by
  cases a with
  | look now draw waits => exact effect_look p now draw waits
  | fail e leased now => exact effect_fail p e leased now
  | succeed e => exact effect_succeed p e
  | hold e => exact effect_modify (fun _ => rfl) e fun _ => rfl
  | release e => exact effect_modify (fun _ => rfl) e fun _ => rfl
  | remove e => exact effect_remove p e
  | close => exact effect_close p

theorem mem_of_map_bare (h : q.entries.map Registration.bare = p.entries.map Registration.bare)
    (hx : x ∈ q.entries) : ∃ r ∈ p.entries, r.bare = x.bare := by
  have hmem : x.bare ∈ q.entries.map Registration.bare := List.mem_map_of_mem hx
  rw [h] at hmem
  exact List.mem_map.mp hmem

theorem length_removeAt (hr : p.entries[i]? = some r) : (p.removeAt i).entries.length = p.entries.length - 1 :=
  List.length_eraseIdx_of_lt (List.getElem?_eq_some_iff.mp hr).1

theorem endpoints_eq (p : Pool) : p.endpoints = (p.entries.map Registration.bare).map (·.endpoint) := by
  simp [endpoints, Function.comp_def]

theorem Effect.settings_eq (h : Effect p a q) : q.settings = p.settings := by
  cases h with
  | aside silent settings entries cursor => exact settings
  | told entry told limit => rfl
  | removed entry others others_left => rfl

theorem Effect.endpoints_sublist (h : Effect p a q) : q.endpoints.Sublist p.endpoints := by
  cases h with
  | aside silent settings entries cursor => rw [endpoints_eq, entries, ← endpoints_eq]
  | told entry told limit =>
    rw [endpoints, map_put _ entry (Registration.hears_endpoint _ _)]
    exact .refl _
  | removed entry others others_left => exact (List.eraseIdx_sublist _ _).map _

/-- The cursor is at an entry, or at the start where there are none. -/
def Seated (p : Pool) : Prop := p.cursor < p.entries.length ∨ p.entries = [] ∧ p.cursor = 0

theorem seated_removeAt (p : Pool) (i : Nat) : (p.removeAt i).Seated := by
  simp only [Seated, removeAt]
  generalize (if i < p.cursor then p.cursor - 1 else p.cursor) = cursor
  split
  case isTrue hlt => exact Or.inl hlt
  case isFalse hge =>
    rcases List.eq_nil_or_concat (p.entries.eraseIdx i) with hnil | ⟨_, _, hsome⟩
    · exact Or.inr ⟨hnil, rfl⟩
    · exact Or.inl (by simp [hsome])

theorem Effect.seated (h : Effect p a q) (hp : p.Seated) : q.Seated := by
  cases h with
  | aside silent settings entries cursor =>
    have hlen : q.entries.length = p.entries.length := by simpa using congrArg List.length entries
    rw [Seated, ← List.length_eq_zero_iff, hlen] at *
    omega
  | told entry told limit => simpa [Seated, put] using hp
  | removed entry others others_left => exact seated_removeAt p _

theorem Effect.errors_eq_zero (h : Effect p a q) (hp : ∀ r ∈ p.entries, r.lastFailure = none → r.errors = 0) :
    ∀ r ∈ q.entries, r.lastFailure = none → r.errors = 0 := by
  intro x hx
  cases h with
  | aside silent settings entries cursor =>
    obtain ⟨r, hr, hbare⟩ := mem_of_map_bare entries hx
    rw [← Registration.bare_errors, ← Registration.bare_lastFailure, ← hbare]
    exact hp r hr
  | told entry told limit =>
    rcases List.mem_or_eq_of_mem_set hx with hx | rfl
    · exact hp x hx
    · exact Registration.errors_hears (hp _ (List.mem_of_getElem? entry)) _
  | removed entry others others_left => exact hp x (List.mem_of_mem_eraseIdx hx)

/-- Who is at the limit is the only one. -/
def Spared (p : Pool) : Prop :=
  ∀ l r, p.settings.removeAfter = some l → r ∈ p.entries → l ≤ r.errors.toNat → p.entries.length = 1

theorem Effect.spared (h : Effect p a q) (hp : p.Spared) : q.Spared := by
  intro l x hl hx hle
  rw [h.settings_eq] at hl
  cases h with
  | aside silent settings entries cursor =>
    obtain ⟨r, hr, hbare⟩ := mem_of_map_bare entries hx
    have herrors : r.bare.errors = x.bare.errors := congrArg Registration.errors hbare
    have hlen : q.entries.length = p.entries.length := by simpa using congrArg List.length entries
    rw [hlen]
    exact hp l r hl hr (herrors ▸ hle)
  | @told i r report entry told limit =>
    have hr : r ∈ p.entries := List.mem_of_getElem? entry
    have hlen : (p.put i (r.hears report)).entries.length = p.entries.length := by simp [put]
    rw [hlen]
    rcases List.mem_or_eq_of_mem_set hx with hx | rfl
    · exact hp l x hl hx hle
    · rcases limit l hl hle with hbefore | hlast
      · exact hp l r hl hr hbefore
      · exact Nat.le_antisymm hlast (List.length_pos_of_mem hr)
  | @removed i r entry others others_left =>
    -- Nobody else was there, and he is taken out himself.
    have hone := hp l x hl (List.mem_of_mem_eraseIdx hx) hle
    have hlen : (p.removeAt i).entries.length = 0 := by rw [length_removeAt entry, hone]
    rw [List.length_eq_zero_iff.mp hlen] at hx
    cases hx

theorem Effect.ne_nil (h : Effect p a q) (ha : ∀ e, a ≠ .remove e) (hp : p.entries ≠ []) : q.entries ≠ [] := by
  rw [← List.length_pos_iff] at *
  cases h with
  | aside silent settings entries cursor =>
    have hlen : q.entries.length = p.entries.length := by simpa using congrArg List.length entries
    rwa [hlen]
  | told entry told limit => simpa [put] using hp
  | @removed i r entry others others_left =>
    obtain ⟨e, rfl⟩ | hleft := others_left
    · exact absurd rfl (ha e)
    · rw [length_removeAt entry]
      omega

def numbered (given : List Endpoint) : List Endpoint := given.mapIdx fun i e => { e with index := i }

/-- What holds of a pool that was built with these endpoints and settings, whatever is done to it. -/
structure WellFormed (given : List Endpoint) (s : Settings) (p : Pool) : Prop where
  settings : p.settings = s
  endpoints : p.endpoints.Sublist (numbered given)
  increasing : (p.endpoints.map (·.index)).Pairwise (· < ·)
  cursor : p.cursor < p.entries.length ∨ p.entries = [] ∧ p.cursor = 0
  errors : ∀ r ∈ p.entries, r.lastFailure = none → r.errors = 0
  -- Who has reached the limit for errors is the only one left.
  limit : ∀ l r, s.removeAfter = some l → r ∈ p.entries → l ≤ r.errors.toNat → p.entries = [r]

theorem endpoints_registered (given : List Endpoint) :
    (registered given).map (·.endpoint) = numbered given := by
  apply List.ext_getElem
  · simp [registered, numbered]
  · intro i h h'
    simp [registered, numbered, Registration.fresh]

theorem map_index_numbered (given : List Endpoint) : (numbered given).map (·.index) = List.range given.length := by
  rw [← map_index_registered, ← endpoints_registered, List.map_map]
  rfl

/-- The indices grow with the numbers that were given, and the only one left is the one that is at the limit. -/
theorem wellFormed_of_spared (settings : p.settings = s) (endpoints : p.endpoints.Sublist (numbered given))
    (cursor : p.Seated) (errors : ∀ r ∈ p.entries, r.lastFailure = none → r.errors = 0) (spared : p.Spared) :
    WellFormed given s p where
  settings := settings
  endpoints := endpoints
  increasing := by
    refine List.Pairwise.sublist (endpoints.map (·.index)) ?_
    rw [map_index_numbered]
    exact List.pairwise_lt_range
  cursor := cursor
  errors := errors
  limit l r hl hr hle := by
    obtain ⟨x, hx⟩ := List.length_eq_one_iff.mp (spared l r (settings ▸ hl) hr hle)
    rw [hx] at hr ⊢
    rw [List.mem_singleton.mp hr]

theorem WellFormed.spared (h : WellFormed given s p) : p.Spared := by
  intro l r hl hr hle
  rw [h.limit l r (h.settings ▸ hl) hr hle]
  rfl

theorem wellFormed_build (h : build given s = .ok p) : WellFormed given s p ∧ p.entries ≠ [] := by
  have hlimit : s.removeAfter ≠ some 0 := by
    intro hzero
    simp [build, Settings.problem?, hzero] at h
  have hgiven : given ≠ [] := by
    rintro rfl
    rw [build] at h
    split at h <;> cases h
  have hpos : 0 < (registered given).length := by
    simpa [registered] using List.length_pos_iff.mpr hgiven
  rw [build_eq h]
  refine ⟨wellFormed_of_spared rfl (by rw [endpoints, endpoints_registered]) (Or.inl hpos) (fun r hr => ?_)
    (fun l r hl hr hle => ?_), List.length_pos_iff.mp hpos⟩
  · obtain ⟨i, hi, rfl⟩ := List.mem_mapIdx.mp hr
    exact fun _ => rfl
  · obtain ⟨i, hi, rfl⟩ := List.mem_mapIdx.mp hr
    obtain rfl : l = 0 := Nat.le_zero.mp hle
    exact absurd hl hlimit

theorem WellFormed.after (h : WellFormed given s p) (a : Access) : WellFormed given s (p.after a) := by
  have heffect := effect_after p a
  exact wellFormed_of_spared (heffect.settings_eq.trans h.settings) (heffect.endpoints_sublist.trans h.endpoints)
    (heffect.seated h.cursor) (heffect.errors_eq_zero h.errors) (heffect.spared h.spared)

theorem WellFormed.afterAll (h : WellFormed given s p) (accesses : List Access) :
    WellFormed given s (p.afterAll accesses) := by
  induction accesses generalizing p with
  | nil => exact h
  | cons a accesses ih => exact ih (h.after a)

theorem WellFormed.valid (h : WellFormed given s p) : p.Valid where
  nodup := by
    have hnodup := h.increasing.imp Nat.ne_of_lt
    rwa [Pool.endpoints, List.map_map] at hnodup
  cursor_le := by
    rcases h.cursor with hlt | ⟨-, hzero⟩
    · exact Nat.le_of_lt hlt
    · rw [hzero]
      exact Nat.zero_le _

theorem afterAll_ne_nil {accesses : List Access} (h : ∀ e, .remove e ∉ accesses) (hp : p.entries ≠ []) :
    (p.afterAll accesses).entries ≠ [] := by
  induction accesses generalizing p with
  | nil => exact hp
  | cons a accesses ih =>
    have ha : ∀ e, a ≠ .remove e := fun e he => h e (he ▸ List.mem_cons_self)
    exact ih (fun e he => h e (List.mem_cons_of_mem a he)) ((effect_after p a).ne_nil ha hp)

/-- What some accesses tell of the registration with this index, one after another. -/
def tidings (p : Pool) (i : Nat) : List Access → List Report
  | [] => []
  | a :: accesses => p.told i a ++ (p.after a).tidings i accesses

theorem tidings_append (p : Pool) (i : Nat) (accesses later : List Access) :
    p.tidings i (accesses ++ later) = p.tidings i accesses ++ (p.afterAll accesses).tidings i later := by
  induction accesses generalizing p with
  | nil => rfl
  | cons a accesses ih => simp [tidings, ih, List.append_assoc]

/-- An entry that is still there was there before, and has heard what was told of it. -/
theorem Effect.heard (h : Effect p a q) (hv : p.Valid) (hx : x ∈ q.entries) :
    ∃ r ∈ p.entries, r.endpoint = x.endpoint ∧ x.bare = r.bare.hearsAll (p.told r.endpoint.index a) := by
  cases h with
  | aside silent settings entries cursor =>
    obtain ⟨r, hr, hbare⟩ := mem_of_map_bare entries hx
    have hendpoint : r.bare.endpoint = x.bare.endpoint := congrArg Registration.endpoint hbare
    exact ⟨r, hr, hendpoint, by rw [silent, Registration.hearsAll_nil, hbare]⟩
  | @told i r report entry told limit =>
    rcases hv.mem_put entry hx with rfl | ⟨hx, hne⟩
    · refine ⟨r, List.mem_of_getElem? entry, (Registration.hears_endpoint _ _).symm, ?_⟩
      rw [told, if_pos rfl, Registration.bare_hears]
      rfl
    · exact ⟨x, hx, rfl, by rw [told, if_neg (Ne.symm hne), Registration.hearsAll_nil]⟩
  | @removed i r entry others others_left =>
    obtain ⟨hx, hne⟩ := hv.mem_removeAt entry hx
    exact ⟨x, hx, rfl, by rw [others _ hne, Registration.hearsAll_nil]⟩

theorem WellFormed.heard (h : WellFormed given s p) (hx : x ∈ (p.afterAll accesses).entries) :
    ∃ r ∈ p.entries, r.endpoint = x.endpoint ∧
      x.bare = r.bare.hearsAll (p.tidings r.endpoint.index accesses) := by
  induction accesses generalizing p with
  | nil => exact ⟨x, hx, rfl, rfl⟩
  | cons a accesses ih =>
    obtain ⟨y, hy, hye, hbare⟩ := ih (h.after a) hx
    obtain ⟨r, hr, hre, hfirst⟩ := (effect_after p a).heard h.valid hy
    refine ⟨r, hr, hre.trans hye, ?_⟩
    rw [tidings, Registration.hearsAll_append, ← hfirst, hre, hbare]

theorem registered_blank (h : build given s = .ok p) (hr : r ∈ p.entries) : r.errors = 0 ∧ r.lastFailure = none := by
  rw [build_eq h] at hr
  obtain ⟨i, hi, rfl⟩ := List.mem_mapIdx.mp hr
  exact ⟨rfl, rfl⟩

theorem noted_afterAll (h : build given s = .ok p) (hx : x ∈ (p.afterAll accesses).entries) :
    x.errors = .ofNat (Report.noted (p.tidings x.endpoint.index accesses)).length ∧
      x.lastFailure = (Report.noted (p.tidings x.endpoint.index accesses)).head? := by
  obtain ⟨r, hr, he, hbare⟩ := (wellFormed_build h).1.heard hx
  obtain ⟨herrors, hlast⟩ := registered_blank h hr
  have hnoted := Registration.hearsAll_noted (r := r.bare) herrors hlast (p.tidings r.endpoint.index accesses)
  rw [← hbare, he] at hnoted
  exact hnoted

theorem errors_eq_zero_iff (h : build given s = .ok p) (hx : x ∈ (p.afterAll accesses).entries)
    (hfew : (Report.noted (p.tidings x.endpoint.index accesses)).length < UInt32.size) :
    x.errors = 0 ↔ x.lastFailure = none := by
  obtain ⟨herrors, hlast⟩ := noted_afterAll h hx
  have hcount : x.errors.toNat = (Report.noted (p.tidings x.endpoint.index accesses)).length := by
    rw [herrors]
    exact UInt32.toNat_ofNat_of_lt' hfew
  rw [hlast, List.head?_eq_none_iff, ← List.length_eq_zero_iff, ← hcount, ← UInt32.toNat_inj]
  rfl

end Pool

namespace Desk
variable {d d' : Desk}

/-- The pool has come to this by accesses for which no later time was read than the clock shows now. -/
def Comes (d d' : Desk) : Prop :=
  ∃ accesses, d'.pool = d.pool.afterAll accesses ∧ ∀ a ∈ accesses, a.read ≤ d'.now

theorem comes_of_pool_eq (h : d'.pool = d.pool) : d.Comes d' := ⟨[], h, by simp⟩

theorem comes_of_after {a : Access} (h : d'.pool = d.pool.after a) (ha : a.read ≤ d'.now) : d.Comes d' :=
  ⟨[a], h, by simpa using ha⟩

theorem Comes.trans {d'' : Desk} (h : d.Comes d') (h' : d'.Comes d'') (hnow : d'.now ≤ d''.now) : d.Comes d'' := by
  obtain ⟨earlier, hpool, hread⟩ := h
  obtain ⟨later, hpool', hread'⟩ := h'
  refine ⟨earlier ++ later, by rw [hpool', hpool, Pool.afterAll_append], fun a ha => ?_⟩
  rcases List.mem_append.mp ha with ha | ha
  · exact Nat.le_trans (hread a ha) hnow
  · exact hread' a ha

theorem comes_get (d : Desk) : d.Comes d.get.2 := by
  rcases hget : d.get with ⟨_ | e, d'⟩
  · exact comes_of_pool_eq (get_refused hget).1
  · obtain ⟨hopen, hsel, -⟩ := get_granted hget
    obtain ⟨i, r, hr, -, -⟩ := Pool.entry_of_select? hsel
    have hne : d.pool.entries ≠ [] := List.ne_nil_of_mem (List.mem_of_getElem? hr)
    exact comes_of_after (a := .look d'.now d.draws 0) (by simp [Pool.after, Pool.look, hopen, hne, hsel])
      (Nat.le_refl _)

theorem comes_gets (hv : d.pool.Valid) (n : Nat) : d.Comes (d.handleAll (List.replicate n .get)) := by
  induction n generalizing d with
  | zero => exact comes_of_pool_eq rfl
  | succ n ih =>
    rw [List.replicate_succ, handleAll_cons, handle_get]
    have hvalid := (follows_get hv).pool.valid
    exact (comes_get d).trans (ih hvalid) (follows_gets hvalid n).now_le

theorem comes_handle (hv : d.pool.Valid) (q : Request) : d.Comes (d.handle q).2 := by
  cases q with
  | get =>
    rw [handle_get]
    exact comes_get d
  | getMany n =>
    rw [handle_getMany]
    exact comes_gets hv n
  | fail e leased => exact comes_of_after (a := .fail e leased d.now) rfl (Nat.le_refl _)
  | succeed e => exact comes_of_after (a := .succeed e) rfl (Nat.zero_le _)
  | hold e => exact comes_of_after (a := .hold e) rfl (Nat.zero_le _)
  | release e => exact comes_of_after (a := .release e) rfl (Nat.zero_le _)
  | remove e => exact comes_of_after (a := .remove e) rfl (Nat.zero_le _)
  | query e => exact comes_of_pool_eq rfl
  | close => exact comes_of_after (a := .close) rfl (Nat.zero_le _)
  | advance t => exact comes_of_pool_eq rfl

theorem Moment.comes (h : d.Moment d') (hv : d.pool.Valid) : d.Comes d' ∧ d.now ≤ d'.now := by
  cases h with
  | request q => exact ⟨comes_handle hv q, (follows_handle hv q).now_le⟩
  | sleep t => exact ⟨comes_of_pool_eq rfl, now_le_sleep d t⟩
  | @granted e waits pool h =>
    exact ⟨comes_of_after (a := .look d.now d.draws waits) (by simp [Pool.after, h]) (Nat.le_refl _),
      Nat.le_refl _⟩

theorem Reaches.comes (h : d.Reaches d') (hv : d.pool.Valid) : d.Comes d' := by
  induction h with
  | refl => exact comes_of_pool_eq rfl
  | tail hbefore hlast ih =>
    obtain ⟨hcomes, hnow⟩ := hlast.comes (Reaches.kept hbefore hv).1
    exact ih.trans hcomes hnow

end Desk

namespace Pool
variable {p : Pool} {s : Settings} {given : List Endpoint}

/-- Whatever is done to a pool since it was built, in whatever order the callers have their turns: it stays well
formed, and nobody but who asks for it takes the last endpoint out. Errors are counted while there is a last one,
unless as many as the counter has values are noted without a success and the counter starts again. -/
theorem wellFormed_of_build (h : build given s = .ok p) :
    (∀ accesses, WellFormed given s (p.afterAll accesses) ∧
      (∀ r ∈ (p.afterAll accesses).entries,
        (Report.noted (p.tidings r.endpoint.index accesses)).length < UInt32.size →
          (r.errors = 0 ↔ r.lastFailure = none)) ∧
      ((∀ e, .remove e ∉ accesses) → (p.afterAll accesses).entries ≠ [])) ∧
    ∀ clock draws d, Desk.Reaches ⟨p, clock, draws⟩ d → Desk.Comes ⟨p, clock, draws⟩ d := by
  obtain ⟨hwell, hne⟩ := wellFormed_build h
  exact ⟨fun accesses => ⟨hwell.afterAll accesses, fun r hr hfew => errors_eq_zero_iff h hr hfew,
    fun hremove => afterAll_ne_nil hremove hne⟩, fun _ _ _ hreaches => hreaches.comes (valid_build h)⟩

/-- Of two endpoints that fail, the first is taken out at its second error, and the second stays. -/
def bothFail : List Access :=
  [.look (.ofSeconds 1) 0 0, .fail ⟨0, "a", none⟩ none (.ofSeconds 2), .fail ⟨0, "a", none⟩ none (.ofSeconds 3),
    .fail ⟨1, "b", none⟩ none (.ofSeconds 4), .fail ⟨1, "b", none⟩ none (.ofSeconds 4),
    .fail ⟨1, "b", none⟩ none (.ofSeconds 3)]

theorem wellFormed_of_bothFail :
    let given : List Endpoint := [⟨0, "a", none⟩, ⟨0, "b", none⟩]
    let s : Settings := ⟨.roundRobin, 3, .ofSeconds 60, 3, some 2⟩
    let p : Pool := ⟨s, registered given, 0, false⟩
    build given s = .ok p ∧ WellFormed given s (p.afterAll bothFail) ∧
      (p.afterAll bothFail).entries = [⟨⟨1, "b", none⟩, 3, some (.ofSeconds 3), 0⟩] := by
  intro given s p
  have hbuild : build given s = .ok p := by decide
  exact ⟨hbuild, ((wellFormed_of_build hbuild).1 bothFail).1, by decide⟩

end Pool
end BatchJob.Endpoint
