import BatchJob.Proofs.Endpoint.Accesses
import Mathlib.Order.Bounds.Defs

/-! The waits of a caller who asks for an endpoint. Each lasts until the first quarantine lapses, though never less
than the shortest wait; there are no more of them than the settings allow, and an answer without an endpoint tells
how many there were. Who is alone waits once, or as long as the clock stands still. -/
namespace BatchJob.Endpoint

theorem le_max_minWait (m : Duration) : m ≤ max minWait m := by
  have hmax : max minWait m = if minWait ≤ m then m else minWait := rfl
  rw [hmax]
  split
  · exact Nat.le_refl _
  · exact Nat.le_of_not_le ‹_›

namespace Registration
variable {r : Registration} {s : Settings} {now m t : Duration}

theorem isFree_of_quarantine? (h : r.quarantine? s now = some m) (hlast : ∀ last ∈ r.lastFailure, last ≤ now)
    (hm : m ≤ t) : r.isFree s (now + t) = true := by
  rw [quarantine?] at h
  split at h
  case isTrue => cases h
  case isFalse hcount =>
    cases hfailure : r.lastFailure with
    | none => simp [hfailure] at h
    | some last =>
      have hle : last.nanos ≤ now.nanos := hlast last hfailure
      rw [hfailure] at h
      simp only at h
      split at h
      case isFalse => cases h
      case isTrue =>
        obtain rfl := Option.some.inj h
        have hlapsed : ¬ now + t - last < s.retryInterval := by
          simp only [Duration.lt_iff, Duration.le_iff, Duration.nanos_sub, Duration.nanos_add] at hm ⊢
          omega
        simp [isFree, quarantine?, hcount, hfailure, hlapsed]

end Registration

namespace Pool
variable {p : Pool} {r : Registration} {now m : Duration} {draw waits : Nat}

theorem minOf?_cons (d : Duration) (ds : List Duration) :
    ∃ m, minOf? (d :: ds) = some m ∧ m ∈ d :: ds ∧ ∀ x ∈ d :: ds, m ≤ x := by
  refine ⟨ds.foldl min d, rfl, ?_⟩
  induction ds generalizing d with
  | nil => exact ⟨List.mem_cons_self, by simp [Duration.le_iff]⟩
  | cons y ds ih =>
    rw [List.foldl_cons]
    by_cases hdy : d ≤ y
    · have hmin : min d y = d := if_pos hdy
      obtain ⟨hmem, hle⟩ := ih d
      rw [hmin]
      refine ⟨?_, fun x hx => ?_⟩
      · exact (List.mem_cons.mp hmem).elim (fun h => List.mem_cons.mpr (Or.inl h)) fun h => by simp [h]
      · rcases List.mem_cons.mp hx with rfl | hx
        · exact hle x List.mem_cons_self
        · rcases List.mem_cons.mp hx with rfl | hx
          · exact Nat.le_trans (hle d List.mem_cons_self) hdy
          · exact hle x (List.mem_cons_of_mem d hx)
    · have hmin : min d y = y := if_neg hdy
      obtain ⟨hmem, hle⟩ := ih y
      rw [hmin]
      refine ⟨List.mem_cons_of_mem d hmem, fun x hx => ?_⟩
      rcases List.mem_cons.mp hx with rfl | hx
      · exact Nat.le_trans (hle y List.mem_cons_self) (Nat.le_of_not_le hdy)
      · exact hle x hx

def remaining (p : Pool) (now : Duration) : Set Duration :=
  {m | ∃ r ∈ p.entries, r.quarantine? p.settings now = some m}

theorem mem_remaining_of_not_free (hr : r ∈ p.entries) (h : r.isFree p.settings now = false) :
    ∃ m, m ∈ p.remaining now := by
  obtain ⟨m, hm⟩ := Option.isSome_iff_exists.mp (Option.isNone_eq_false_iff.mp h)
  exact ⟨m, r, hr, hm⟩

theorem isLeast_earliestRelease? (hm : m ∈ p.remaining now) :
    ∃ first, p.earliestRelease? now = some first ∧ IsLeast (p.remaining now) first := by
  obtain ⟨r, hr, hquarantine⟩ := hm
  have hmem : m ∈ p.entries.filterMap (·.quarantine? p.settings now) := List.mem_filterMap.mpr ⟨r, hr, hquarantine⟩
  rw [earliestRelease?]
  cases hds : p.entries.filterMap (·.quarantine? p.settings now) with
  | nil => simp [hds] at hmem
  | cons d ds =>
    obtain ⟨first, heq, hfirst, hle⟩ := minOf?_cons d ds
    rw [← hds] at hfirst hle
    refine ⟨first, heq, ?_, fun x hx => ?_⟩
    · exact List.mem_filterMap.mp hfirst
    · exact hle x (List.mem_filterMap.mpr hx)

theorem available_iff : p.available now = true ↔
    p.closed = false ∧ ∃ r ∈ p.entries, r.isFree p.settings now = true := by
  simp [available]

theorem not_free_of_not_available (hopen : p.closed = false) (h : p.available now = false) (hr : r ∈ p.entries) :
    r.isFree p.settings now = false := by
  simp only [available, hopen, Bool.not_false, Bool.true_and, List.any_eq_false] at h
  simpa using h r hr

/-- A wait until the first quarantine of all lapses, or as long as the shortest wait. -/
structure Due (p : Pool) (now t : Duration) : Prop where
  quarantined : ∀ r ∈ p.entries, r.isFree p.settings now = false
  first : ∃ m, p.earliestRelease? now = some m ∧ IsLeast (p.remaining now) m ∧ t = max minWait m

theorem due_of_not_free (hne : p.entries ≠ []) (h : ∀ r ∈ p.entries, r.isFree p.settings now = false) :
    p.Due now (max minWait ((p.earliestRelease? now).getD minWait)) := by
  obtain ⟨r, hr⟩ := List.exists_mem_of_ne_nil _ hne
  obtain ⟨m, hm⟩ := mem_remaining_of_not_free hr (h r hr)
  obtain ⟨first, heq, hleast⟩ := isLeast_earliestRelease? hm
  exact ⟨h, first, heq, hleast, by rw [heq, Option.getD_some]⟩

theorem look_wait {t : Duration} (h : p.look now draw waits = .wait t) : p.Due now t := by
  rw [look] at h
  split at h
  case isTrue => cases h
  case isFalse =>
    split at h
    case isTrue => cases h
    case isFalse hne =>
      cases hsel : p.select? now draw with
      | some found => simp [hsel] at h
      | none =>
        simp only [hsel] at h
        obtain rfl := Answer.wait.inj h
        refine due_of_not_free hne fun r hr => Bool.eq_false_iff.mpr fun hfree => ?_
        obtain ⟨e, q, hsome⟩ := exists_select? hr hfree draw
        simp [hsel] at hsome

theorem look_refused {refusal : Refusal} (h : p.look now draw waits = .refused refusal) :
    refusal = .closed ∨ refusal = .exhausted waits ∧ p.entries = [] := by
  rw [look] at h
  split at h
  · exact Or.inl (Answer.refused.inj h).symm
  · split at h
    · exact Or.inr ⟨(Answer.refused.inj h).symm, ‹_›⟩
    · split at h <;> cases h

theorem look_of_not_free (hv : p.Valid) (hopen : p.closed = false) (hne : p.entries ≠ [])
    (h : ∀ r ∈ p.entries, r.isFree p.settings now = false) (draw waits : Nat) :
    p.look now draw waits = .wait (max minWait ((p.earliestRelease? now).getD minWait)) := by
  cases hsel : p.select? now draw with
  | none => simp [look, hopen, hne, hsel]
  | some found =>
    obtain ⟨i, r, -, -, -, hchosen⟩ := select?_cases hv hsel
    have hr : r ∈ p.entries := List.mem_of_getElem? hchosen.entry
    have hfree := (hv.free_iff hr).mp hchosen.free
    rw [h r hr] at hfree
    cases hfree

theorem look_of_free (hopen : p.closed = false) (hr : r ∈ p.entries) (hfree : r.isFree p.settings now = true)
    (draw waits : Nat) : ∃ e q, p.look now draw waits = .granted e q := by
  obtain ⟨e, q, hsel⟩ := exists_select? hr hfree draw
  exact ⟨e, q, by simp [look, hopen, List.ne_nil_of_mem hr, hsel]⟩

end Pool

namespace Desk
variable {d d' : Desk} {nap : Duration → Desk → Desk} {budget waits : Nat} {answer : Except Refusal Endpoint}

/-- The waits of a caller, in order; `nap` is what becomes of the desk during a wait. -/
def naps (nap : Duration → Desk → Desk) : (budget waits : Nat) → Desk → List Duration
  | budget, waits, d =>
    match d.pool.look d.now d.draws waits with
    | .wait t =>
      match budget with
      | 0 => []
      | budget + 1 => t :: naps nap budget (waits + 1) (nap t d)
    | _ => []

def napped (nap : Duration → Desk → Desk) (d : Desk) (waits : List Duration) : Desk :=
  waits.foldl (fun d t => nap t d) d

/-- What a caller has come to after these waits. The call itself changes no registration, error, failure or lease. -/
structure Waits (nap : Duration → Desk → Desk) (allowed : Nat) (d : Desk) (waits : List Duration)
    (answer : Except Refusal Endpoint) (d' : Desk) : Prop where
  budget : waits.length ≤ allowed
  due : ∀ before t after, waits = before ++ t :: after → (napped nap d before).pool.Due (napped nap d before).now t
  -- Who has spent his budget would have to wait once more, until a release that is known, or nobody is left.
  spent : ∀ n, answer = .error (.exhausted n) → (napped nap d waits).pool.entries = [] ∨
    waits.length = allowed ∧ ∃ t, (napped nap d waits).pool.Due (napped nap d waits).now t
  entries : d'.pool.entries = (napped nap d waits).pool.entries
  settings : d'.pool.settings = (napped nap d waits).pool.settings
  closed : d'.pool.closed = (napped nap d waits).pool.closed
  clock : d'.clock = (napped nap d waits).clock

theorem waits_acquire (h : acquire nap budget waits d = (answer, d')) :
    Waits nap budget d (naps nap budget waits d) answer d' ∧
      ∀ n, answer = .error (.exhausted n) → n = waits + (naps nap budget waits d).length := by
  -- By the looks at the pool, the last of which grants, refuses, or finds the budget spent.
  induction budget, waits, d using acquire.induct nap with
  | case1 budget waits d e pool hlook =>
    have hnaps : naps nap budget waits d = [] := by rw [naps, hlook]
    rw [acquire, hlook] at h
    obtain ⟨rfl, rfl⟩ := Prod.mk.inj h
    obtain ⟨i, r, -, -, rfl⟩ := Pool.entry_of_select? (Pool.look_granted hlook).2
    rw [hnaps]
    refine ⟨⟨Nat.zero_le _, by simp, by simp, ?_, ?_, ?_, rfl⟩, by simp⟩
    all_goals
      simp only [Pool.passTurn]
      split <;> rfl
  | case2 budget waits d refusal hlook =>
    have hnaps : naps nap budget waits d = [] := by rw [naps, hlook]
    rw [acquire, hlook] at h
    obtain ⟨rfl, rfl⟩ := Prod.mk.inj h
    rw [hnaps]
    refine ⟨⟨Nat.zero_le _, by simp, fun n hn => ?_, rfl, rfl, rfl, rfl⟩, fun n hn => ?_⟩
    · rcases Pool.look_refused hlook with rfl | ⟨-, hnil⟩
      · cases hn
      · exact Or.inl hnil
    · rcases Pool.look_refused hlook with rfl | ⟨rfl, -⟩
      · cases hn
      · simpa [eq_comm] using hn
  | case3 waits d t hlook =>
    have hnaps : naps nap 0 waits d = [] := by rw [naps, hlook]
    rw [acquire, hlook] at h
    obtain ⟨rfl, rfl⟩ := Prod.mk.inj h
    rw [hnaps]
    exact ⟨⟨Nat.zero_le _, by simp, fun _ _ => Or.inr ⟨rfl, t, Pool.look_wait hlook⟩, rfl, rfl, rfl, rfl⟩,
      by simp [eq_comm]⟩
  | case4 waits d t hlook budget ih =>
    have hnaps : naps nap (budget + 1) waits d = t :: naps nap budget (waits + 1) (nap t d) := by rw [naps, hlook]
    rw [acquire, hlook] at h
    obtain ⟨hwaits, hn⟩ := ih h
    rw [hnaps]
    refine ⟨⟨Nat.succ_le_succ hwaits.budget, fun before x after hsplit => ?_, fun n heq => ?_, hwaits.entries,
      hwaits.settings, hwaits.closed, hwaits.clock⟩, fun n heq => ?_⟩
    · cases before with
      | nil =>
        obtain ⟨rfl, -⟩ := List.cons.inj hsplit
        exact Pool.look_wait hlook
      | cons y before =>
        obtain ⟨rfl, hrest⟩ := List.cons.inj hsplit
        exact hwaits.due before x after hrest
    · rcases hwaits.spent n heq with hnil | ⟨hlength, hdue⟩
      · exact Or.inl hnil
      · exact Or.inr ⟨congrArg (· + 1) hlength, hdue⟩
    · rw [hn n heq, List.length_cons]
      omega

theorem sleeps_napped (d : Desk) (waits : List Duration) :
    (napped sleep d waits).clock.sleeps = d.clock.sleeps ++ waits := by
  induction waits generalizing d with
  | nil => simp [napped]
  | cons t waits ih =>
    have hcons : napped sleep d (t :: waits) = napped sleep (d.sleep t) waits := rfl
    have hsleep : (d.sleep t).clock.sleeps = d.clock.sleeps ++ [t] := rfl
    rw [hcons, ih, hsleep, List.append_assoc, List.singleton_append]

/-- Who finds a free endpoint does not wait, and nobody else goes without waiting. -/
theorem acquire_of_available (h : d.pool.available d.now = true) (nap : Duration → Desk → Desk)
    (budget waits : Nat) :
    naps nap budget waits d = [] ∧ ∃ e d', acquire nap budget waits d = (.ok e, d') ∧ d'.clock = d.clock := by
  obtain ⟨hopen, r, hr, hfree⟩ := Pool.available_iff.mp h
  obtain ⟨e, q, hlook⟩ := Pool.look_of_free hopen hr hfree d.draws waits
  refine ⟨by rw [naps, hlook], e, { d with pool := q, draws := d.draws + 1 }, ?_, rfl⟩
  rw [acquire, hlook]

theorem available_of_acquire {e : Endpoint} (hv : d.pool.Valid) (h : acquire nap budget waits d = (.ok e, d'))
    (hnaps : naps nap budget waits d = []) : d.pool.available d.now = true := by
  rw [acquire] at h
  rw [naps] at hnaps
  cases hlook : d.pool.look d.now d.draws waits with
  | refused refusal => simp [hlook] at h
  | wait t => cases budget <;> simp [hlook] at h hnaps
  | granted e q =>
    obtain ⟨hopen, hsel⟩ := Pool.look_granted hlook
    obtain ⟨i, r, -, -, -, hchosen⟩ := Pool.select?_cases hv hsel
    have hr : r ∈ d.pool.entries := List.mem_of_getElem? hchosen.entry
    exact Pool.available_iff.mpr ⟨hopen, r, hr, (hv.free_iff hr).mp hchosen.free⟩

/-- Nobody else is served during the waits, and the clock is moved like this. -/
def Alone (nap : Duration → Desk → Desk) (move : Duration → Duration → Duration) (d : Desk) : Prop :=
  ∀ t d₁, Waited nap d d₁ → (nap t d₁).pool = d₁.pool ∧ (nap t d₁).now = move t d₁.now

theorem Alone.next {move : Duration → Duration → Duration} (h : Alone nap move d) (t : Duration) :
    Alone nap move (nap t d) := fun t' d₁ hwaited => h t' d₁ (.head ⟨t, rfl⟩ hwaited)

theorem frozen_waited (h : Waited sleep d d') : d'.clock.frozen = d.clock.frozen := by
  induction h with
  | refl => rfl
  | tail _ hstep ih =>
    obtain ⟨t, rfl⟩ := hstep
    exact ih

theorem alone_sleep (d : Desk) : Alone sleep (fun t now => if d.clock.frozen then now else now + t) d := by
  intro t d₁ hwaited
  rw [← frozen_waited hwaited]
  exact ⟨rfl, rfl⟩

theorem acquire_of_advancing (hv : d.pool.Valid) (hopen : d.pool.closed = false) (hne : d.pool.entries ≠ [])
    (hpast : ∀ r ∈ d.pool.entries, ∀ last ∈ r.lastFailure, last ≤ d.now)
    (halone : Alone nap (fun t now => now + t) d) (budget waits : Nat) :
    (∃ e d', acquire nap (budget + 1) waits d = (.ok e, d')) ∧ (naps nap (budget + 1) waits d).length ≤ 1 := by
  cases havailable : d.pool.available d.now with
  | true =>
    obtain ⟨hnaps, e, d', hget, -⟩ := acquire_of_available havailable nap (budget + 1) waits
    exact ⟨⟨e, d', hget⟩, by simp [hnaps]⟩
  | false =>
    have hnot := fun r hr => Pool.not_free_of_not_available (r := r) hopen havailable hr
    have hlook := Pool.look_of_not_free hv hopen hne hnot d.draws waits
    obtain ⟨first, -, ⟨⟨r, hr, hquarantine⟩, -⟩, ht⟩ := (Pool.due_of_not_free hne hnot).first
    rw [ht] at hlook
    obtain ⟨hpool, hnow⟩ := halone (max minWait first) d .refl
    have hfree := Registration.isFree_of_quarantine? hquarantine (hpast r hr) (le_max_minWait first)
    have hlapsed : (nap (max minWait first) d).pool.available (nap (max minWait first) d).now = true := by
      rw [hpool, hnow]
      exact Pool.available_iff.mpr ⟨hopen, r, hr, hfree⟩
    obtain ⟨hnaps, e, d', hget, -⟩ := acquire_of_available hlapsed nap budget (waits + 1)
    refine ⟨⟨e, d', ?_⟩, ?_⟩
    · rw [acquire, hlook]
      exact hget
    · rw [naps, hlook]
      simp [hnaps]

/-- On a clock that stands still all waits are the same, and in vain. -/
theorem acquire_of_still (hv : d.pool.Valid) (hopen : d.pool.closed = false) (hne : d.pool.entries ≠ [])
    (havailable : d.pool.available d.now = false) (halone : Alone nap (fun _ now => now) d) (budget waits : Nat) :
    ∃ t, naps nap budget waits d = List.replicate budget t ∧
      (acquire nap budget waits d).1 = .error (.exhausted (waits + budget)) := by
  refine ⟨max minWait ((d.pool.earliestRelease? d.now).getD minWait), ?_⟩
  generalize hpool : d.pool = p at *
  generalize hnow : d.now = now at *
  have hnot := fun r hr => Pool.not_free_of_not_available (r := r) hopen havailable hr
  induction budget generalizing d waits with
  | zero =>
    have hlook := Pool.look_of_not_free hv hopen hne hnot d.draws waits
    rw [naps, acquire, hpool, hnow, hlook]
    exact ⟨rfl, rfl⟩
  | succ budget ih =>
    have hlook := Pool.look_of_not_free hv hopen hne hnot d.draws waits
    obtain ⟨hpool', hnow'⟩ := halone (max minWait ((p.earliestRelease? now).getD minWait)) d .refl
    obtain ⟨hnaps, hget⟩ := ih (halone.next _) (waits + 1) (hpool'.trans hpool) (hnow'.trans hnow)
    rw [naps, acquire, hpool, hnow, hlook]
    refine ⟨by simp [hnaps, List.replicate_succ], ?_⟩
    simp only [hget]
    rw [Nat.add_right_comm, Nat.add_assoc]

theorem acquire_of_empty (hopen : d.pool.closed = false) (hnil : d.pool.entries = []) (nap : Duration → Desk → Desk)
    (budget waits : Nat) :
    naps nap budget waits d = [] ∧ acquire nap budget waits d = (.error (.exhausted waits), d) := by
  have hlook : d.pool.look d.now d.draws waits = .refused (.exhausted waits) := by simp [Pool.look, hopen, hnil]
  exact ⟨by rw [naps, hlook], by rw [acquire, hlook]⟩

end Desk

namespace Pool
variable {p q : Pool} {a : Access} {bound : Duration}

theorem read_of_told {i : Nat} {leased : Option Duration} {now : Duration} (h : .failed leased now ∈ p.told i a) :
    a.read = now := by
  cases a with
  | fail e leased' now' =>
    rw [told] at h
    split at h
    · cases List.mem_singleton.mp h
      rfl
    · cases h
  | succeed e =>
    rw [told] at h
    split at h <;> simp at h
  | look now draw waits => cases h
  | hold e => cases h
  | release e => cases h
  | remove e => cases h
  | close => cases h

theorem Effect.lastFailure_le (h : Effect p a q) (ha : a.read ≤ bound)
    (hp : ∀ r ∈ p.entries, ∀ last ∈ r.lastFailure, last ≤ bound) :
    ∀ r ∈ q.entries, ∀ last ∈ r.lastFailure, last ≤ bound := by
  intro x hx
  cases h with
  | aside silent settings entries cursor =>
    obtain ⟨r, hr, hbare⟩ := mem_of_map_bare entries hx
    rw [← Registration.bare_lastFailure, ← hbare]
    exact hp r hr
  | @told i r report entry told limit =>
    rcases List.mem_or_eq_of_mem_set hx with hx | rfl
    · exact hp x hx
    · have hr := hp r (List.mem_of_getElem? entry)
      have hmem : report ∈ p.told r.endpoint.index a := by simp [told]
      cases report with
      | succeeded => simp [Registration.hears, Registration.recover]
      | failed leased now =>
        rw [Registration.hears]
        split
        · rintro last ⟨⟩
          exact read_of_told hmem ▸ ha
        · exact hr
  | removed entry others others_left => exact hp x (List.mem_of_mem_eraseIdx hx)

theorem lastFailure_le_afterAll {accesses : List Access} (ha : ∀ a ∈ accesses, a.read ≤ bound)
    (hp : ∀ r ∈ p.entries, ∀ last ∈ r.lastFailure, last ≤ bound) :
    ∀ r ∈ (p.afterAll accesses).entries, ∀ last ∈ r.lastFailure, last ≤ bound := by
  induction accesses generalizing p with
  | nil => exact hp
  | cons a accesses ih =>
    have hfirst := (effect_after p a).lastFailure_le (ha a List.mem_cons_self) hp
    exact ih (fun b hb => ha b (List.mem_cons_of_mem a hb)) hfirst

theorem lastFailure_registered (given : List Endpoint) : ∀ r ∈ registered given, r.lastFailure = none := by
  intro r hr
  obtain ⟨i, hi, rfl⟩ := List.mem_mapIdx.mp hr
  rfl

end Pool

namespace Desk
variable {d : Desk} {s : Settings} {given : List Endpoint} {p : Pool} {past : List Access}

/-- How many waits an endpoint is worth to a caller at this desk, whose pool has seen these accesses. -/
structure Budgeted (budget : Nat) (past : List Access) (d : Desk) : Prop where
  waits : ∀ nap answer d', acquire nap budget 0 d = (answer, d') →
    Waits nap budget d (naps nap budget 0 d) answer d' ∧
      ∀ n, answer = .error (.exhausted n) → n = (naps nap budget 0 d).length
  available : d.pool.available d.now = true → ∀ nap, naps nap budget 0 d = [] ∧
    ∃ e d', acquire nap budget 0 d = (.ok e, d') ∧ d'.clock = d.clock
  unavailable : d.pool.available d.now = false → ∀ nap e d', acquire nap budget 0 d = (.ok e, d') →
    naps nap budget 0 d ≠ []
  -- The clock shows no earlier time than was read before, and goes on while he waits.
  advancing : (∀ a ∈ past, a.read ≤ d.now) → d.pool.entries ≠ [] → 1 ≤ budget →
    ∀ nap, Alone nap (fun t now => now + t) d →
      (∃ e d', acquire nap budget 0 d = (.ok e, d')) ∧ (naps nap budget 0 d).length ≤ 1
  still : d.pool.entries ≠ [] → d.pool.available d.now = false → ∀ nap, Alone nap (fun _ now => now) d →
    ∃ t, naps nap budget 0 d = List.replicate budget t ∧
      (acquire nap budget 0 d).1 = .error (.exhausted budget)
  none_left : d.pool.entries = [] → ∀ nap, naps nap budget 0 d = [] ∧
    acquire nap budget 0 d = (.error (.exhausted 0), d)
  get : d.get = acquire sleep budget 0 d ∧ d.get.2.clock.sleeps = d.clock.sleeps ++ naps sleep budget 0 d

theorem budgeted_of_accesses (h : Pool.build given s = .ok p) (hpool : d.pool = p.afterAll past)
    (hopen : d.pool.closed = false) : Budgeted s.waitAttempts past d := by
  have hwell : d.pool.WellFormed given s := hpool ▸ ((Pool.wellFormed_build h).1.afterAll past)
  have hget : d.get = acquire sleep s.waitAttempts 0 d := by rw [Desk.get, hwell.settings]
  refine ⟨fun nap answer d' hacquire => ?waits, fun havailable nap => acquire_of_available havailable nap _ 0,
    fun hunavailable nap e d' hacquire hnaps => ?unavailable, fun hread hne hbudget nap halone => ?advancing,
    fun hne havailable nap halone => ?still, fun hnil nap => acquire_of_empty hopen hnil nap _ 0, hget, ?log⟩
  case waits => simpa using waits_acquire hacquire
  case unavailable =>
    rw [available_of_acquire hwell.valid hacquire hnaps] at hunavailable
    cases hunavailable
  case advancing =>
    have hpast : ∀ r ∈ d.pool.entries, ∀ last ∈ r.lastFailure, last ≤ d.now := by
      rw [hpool]
      refine Pool.lastFailure_le_afterAll hread fun r hr last hlast => ?_
      rw [Pool.build_eq h] at hr
      rw [Pool.lastFailure_registered given r hr] at hlast
      cases hlast
    obtain ⟨budget, hsucc⟩ := Nat.exists_eq_add_of_le' hbudget
    rw [hsucc]
    exact acquire_of_advancing hwell.valid hopen hne hpast halone budget 0
  case still => simpa using acquire_of_still hwell.valid hopen hne havailable halone s.waitAttempts 0
  case log =>
    rcases hacquire : acquire sleep s.waitAttempts 0 d with ⟨answer, d'⟩
    rw [hget, hacquire, (waits_acquire hacquire).1.clock, sleeps_napped]

/-- Two endpoints in quarantine, the first of which is released after 45 seconds. -/
def bothDown (frozen : Bool) : Desk :=
  ⟨Pool.afterAll
    ⟨⟨.roundRobin, 1, .ofSeconds 60, 3, none⟩, Pool.registered [⟨0, "a", none⟩, ⟨0, "b", none⟩], 0, false⟩
    [.fail ⟨1, "b", none⟩ none (.ofSeconds 5), .fail ⟨0, "a", none⟩ none (.ofSeconds 10)],
    ⟨.ofSeconds 20, frozen, []⟩, 0⟩

theorem budgeted_of_bothDown :
    let given : List Endpoint := [⟨0, "a", none⟩, ⟨0, "b", none⟩]
    let s : Settings := ⟨.roundRobin, 1, .ofSeconds 60, 3, none⟩
    let p : Pool := ⟨s, Pool.registered given, 0, false⟩
    let past : List Access := [.fail ⟨1, "b", none⟩ none (.ofSeconds 5), .fail ⟨0, "a", none⟩ none (.ofSeconds 10)]
    Pool.build given s = .ok p ∧ Budgeted s.waitAttempts past (bothDown false) ∧
      (bothDown false).get.1 = .ok ⟨1, "b", none⟩ ∧ (bothDown false).get.2.clock.sleeps = [.ofSeconds 45] ∧
      (bothDown true).get.1 = .error (.exhausted 3) := by
  intro given s p past
  have hbuild : Pool.build given s = .ok p := by decide
  exact ⟨hbuild, budgeted_of_accesses hbuild rfl (by decide), by decide +kernel, by decide +kernel,
    by decide +kernel⟩

end Desk
end BatchJob.Endpoint
