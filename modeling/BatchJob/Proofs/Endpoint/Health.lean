import BatchJob.Proofs.Endpoint.Waiting

/-! Quarantine as a function of what was reported. The history of a registration is the list of the failures and
successes that were told of it, and the pool keeps nothing of it but the number of the failures that count since
the last success and the time of the latest. -/
namespace BatchJob.Endpoint

/-- What is told of a registration: a failure, with the time at which the endpoint was handed out if that is
known, or a success. -/
inductive Report where
  | failed (leased : Option Duration) (time : Duration)
  | succeeded
  deriving DecidableEq, Repr

namespace Report

/-- A failure counts unless a later one than its lease is among those that count; a success ends the count. -/
def count (failures : List Duration) : Report → List Duration
  | failed leased time =>
    if leased.all fun l => failures.all (· ≤ l) then time :: failures else failures
  | succeeded => []

def counted (reports : List Report) : List Duration := reports.foldl count []

@[simp] theorem counted_snoc (reports : List Report) (report : Report) :
    counted (reports ++ [report]) = count (counted reports) report := by
  simp [counted]

end Report

namespace Desk
variable {d d' : Desk} {r x : Registration} {s : Settings} {given : List Endpoint} {p : Pool}
variable {failures : List Duration} {now now' : Duration} {history : Nat → List Report}

/-- What a request tells of the registration with this index. -/
def reported (d : Desk) (i : Nat) : Request → List Report
  | .fail e leased =>
    if (d.pool.find? e).any (·.endpoint.index = i) then [.failed leased d.now] else []
  | .succeed e => if (d.pool.find? e).any (·.endpoint.index = i) then [.succeeded] else []
  | _ => []

def reports (d : Desk) (i : Nat) : List Request → List Report
  | [] => []
  | q :: requests => d.reported i q ++ reports (d.handle q).2 i requests

/-- The entry knows the number of these failures, as far as its counter goes, and the time of the latest. -/
structure Knows (now : Duration) (failures : List Duration) (r : Registration) : Prop where
  errors : r.errors = .ofNat failures.length
  last : r.lastFailure = failures.head?
  sorted : failures.Pairwise (· ≥ ·)
  le_now : ∀ t ∈ failures, t ≤ now

theorem Knows.later (h : Knows now failures r) (hnow : now ≤ now') : Knows now' failures r :=
  { h with le_now := fun t ht => Nat.le_trans (h.le_now t ht) hnow }

theorem Knows.counts_iff (h : Knows now failures r) (leased : Option Duration) :
    r.counts leased = leased.all fun l => failures.all (· ≤ l) := by
  cases leased with
  | none => rfl
  | some l =>
    cases hf : failures with
    | nil => simp [Registration.counts, h.last, hf]
    | cons t failures =>
      have hsorted := h.sorted
      rw [hf] at hsorted
      have hle : t ≤ l → ∀ t' ∈ failures, t' ≤ l := fun ht t' ht' =>
        Nat.le_trans (List.rel_of_pairwise_cons hsorted ht') ht
      simp only [Registration.counts, h.last, hf, List.head?_cons, Option.all_some, List.all_cons]
      rw [Bool.eq_iff_iff]
      simpa using hle

theorem Knows.failed (h : Knows now failures r) (leased : Option Duration) :
    Knows now (Report.count failures (.failed leased now)) (if r.counts leased then r.fail now else r) := by
  rw [Report.count, ← h.counts_iff leased]
  cases r.counts leased with
  | false => exact h
  | true =>
    exact ⟨by simp [Registration.fail, h.errors, UInt32.ofNat_add], rfl,
      List.pairwise_cons.mpr ⟨h.le_now, h.sorted⟩,
      List.forall_mem_cons.mpr ⟨Nat.le_refl _, h.le_now⟩⟩

theorem knows_nil (now : Duration) (he : r.errors = 0) (hl : r.lastFailure = none) : Knows now [] r :=
  ⟨he, hl, .nil, by simp⟩

theorem Knows.congr (h : Knows now failures r) (he : x.errors = r.errors)
    (hl : x.lastFailure = r.lastFailure) : Knows now failures x :=
  { h with errors := he.trans h.errors, last := hl.trans h.last }

/-- Every entry keeps what counts of its history. -/
def Records (history : Nat → List Report) (d : Desk) : Prop :=
  ∀ r ∈ d.pool.entries, Knows d.now (Report.counted (history r.endpoint.index)) r

theorem records_build (h : Pool.build given s = .ok p) (clock : Clock) (draws : Nat) :
    Records (fun _ => []) ⟨p, clock, draws⟩ := by
  rw [Pool.build_eq h]
  intro r hr
  obtain ⟨i, hi, rfl⟩ := List.mem_mapIdx.mp hr
  exact knows_nil _ rfl rfl

def extended (history : Nat → List Report) (d : Desk) (q : Request) (i : Nat) : List Report :=
  history i ++ d.reported i q

theorem extended_of_silent {q : Request} (hq : ∀ i, d.reported i q = []) : extended history d q = history := by
  funext i
  rw [extended, hq, List.append_nil]

theorem Records.get (h : Records history d) (hv : d.pool.Valid) : Records history d.get.2 := by
  intro r hr
  rw [entries_get hv] at hr
  exact (h r hr).later (follows_get hv).now_le

theorem Records.gets (h : Records history d) (hv : d.pool.Valid) (n : Nat) :
    Records history (d.handleAll (List.replicate n .get)) := by
  induction n generalizing d with
  | zero => exact h
  | succ n ih =>
    rw [List.replicate_succ, handleAll_cons, handle_get]
    exact ih (h.get hv) (follows_get hv).pool.valid

theorem Records.put {i : Nat} {history' : Nat → List Report} (h : Records history d) (hv : d.pool.Valid)
    (hr : d.pool.entries[i]? = some r) (hothers : ∀ j, j ≠ r.endpoint.index → history' j = history j)
    (he : x.endpoint = r.endpoint)
    (hown : Knows d.now (Report.counted (history' r.endpoint.index)) x) :
    Records history' (d.onPool (·.put i x)) := by
  intro y hy
  rcases hv.mem_put hr hy with rfl | ⟨hy, hne⟩
  · rw [he]
    exact hown
  · rw [hothers _ hne]
    exact h y hy

theorem Records.removeAt {i : Nat} {history' : Nat → List Report} (h : Records history d) (hv : d.pool.Valid)
    (hr : d.pool.entries[i]? = some r) (hothers : ∀ j, j ≠ r.endpoint.index → history' j = history j) :
    Records history' (d.onPool (·.removeAt i)) := by
  intro y hy
  obtain ⟨hy, hne⟩ := hv.mem_removeAt hr hy
  rw [hothers _ hne]
  exact h y hy

theorem Records.modify {f : Registration → Registration} {history' : Nat → List Report}
    (h : Records history d) (hv : d.pool.Valid) (e : Endpoint) (hf : ∀ r, (f r).endpoint = r.endpoint)
    (hnone : d.pool.find? e = none → history' = history)
    (hothers : ∀ r, d.pool.find? e = some r → ∀ j, j ≠ r.endpoint.index → history' j = history j)
    (hown : ∀ r, d.pool.find? e = some r → Knows d.now (Report.counted (history r.endpoint.index)) r →
      Knows d.now (Report.counted (history' r.endpoint.index)) (f r)) :
    Records history' (d.onPool (·.modify e f)) := by
  rcases Pool.modify_cases d.pool e f with ⟨hfind, heq⟩ | ⟨i, r, hr, hfind, heq⟩
  · rw [onPool, heq, hnone hfind]
    exact h
  · rw [onPool, heq]
    exact h.put hv hr (hothers r hfind) (hf r) (hown r hfind (h r (List.mem_of_getElem? hr)))

theorem Records.lease {f : Registration → Registration} (h : Records history d) (hv : d.pool.Valid)
    (e : Endpoint) (hf : ∀ r, (f r).endpoint = r.endpoint) (he : ∀ r, (f r).errors = r.errors)
    (hl : ∀ r, (f r).lastFailure = r.lastFailure) : Records history (d.onPool (·.modify e f)) :=
  h.modify hv e hf (fun _ => rfl) (fun _ _ _ _ => rfl) fun r _ hk => hk.congr (he r) (hl r)

theorem Records.succeed (h : Records history d) (hv : d.pool.Valid) (e : Endpoint) :
    Records (extended history d (.succeed e)) (d.onPool (·.succeed e)) := by
  refine h.modify hv e (fun _ => rfl) (fun hf => ?_) (fun r hf i hi => ?_) (fun r hf _ => ?_)
  · funext i
    simp [extended, reported, hf]
  · simp [extended, reported, hf, Ne.symm hi]
  · simpa [extended, reported, hf, Report.count] using knows_nil (r := r.recover) d.now rfl rfl

theorem Records.fail (h : Records history d) (hv : d.pool.Valid) (e : Endpoint) (leased : Option Duration) :
    Records (extended history d (.fail e leased)) (d.fail e leased) := by
  rcases Pool.fail_cases d.pool e leased d.now with ⟨hfind, heq⟩ | ⟨i, r, hr, hfind, hcase⟩
  · rw [Desk.fail, onPool, heq, extended_of_silent fun i => by simp [reported, hfind]]
    exact h
  have hothers : ∀ j, j ≠ r.endpoint.index → extended history d (.fail e leased) j = history j :=
    fun j hj => by simp [extended, reported, hfind, Ne.symm hj]
  have hown : Knows d.now (Report.counted (extended history d (.fail e leased) r.endpoint.index))
      (if r.counts leased then r.fail d.now else r) := by
    simpa [extended, reported, hfind] using (h r (List.mem_of_getElem? hr)).failed leased
  rcases hcase with ⟨hc, heq⟩ | ⟨hc, heq⟩ | ⟨-, heq⟩
  · rw [hc] at hown
    have hsame : d.fail e leased = d.onPool (·.put i r) := by
      rw [Desk.fail, onPool, onPool, heq, Pool.put_self hr]
    rw [hsame]
    exact h.put hv hr hothers rfl hown
  · rw [hc, if_pos rfl] at hown
    rw [Desk.fail, onPool, heq]
    exact h.put hv hr hothers rfl hown
  · rw [Desk.fail, onPool, heq]
    exact h.removeAt hv hr hothers

theorem Records.remove (h : Records history d) (hv : d.pool.Valid) (e : Endpoint) :
    Records history (d.handle (.remove e)).2 := by
  rcases Pool.remove_cases d.pool e with ⟨-, heq⟩ | ⟨i, r, hr, -, heq⟩
  · rw [handle, heq]
    exact h
  · rw [handle, heq]
    exact h.removeAt hv hr fun _ _ => rfl

theorem Records.close (h : Records history d) : Records history (d.onPool .close) := by
  rw [onPool, Pool.close]
  split
  · exact h
  · intro x hx
    obtain ⟨r, hr, rfl⟩ := List.mem_map.mp hx
    exact (h r hr).congr rfl rfl

theorem Records.handle (h : Records history d) (hv : d.pool.Valid) (q : Request) :
    Records (extended history d q) (d.handle q).2 := by
  cases q with
  | get =>
    rw [extended_of_silent fun _ => rfl, handle_get]
    exact h.get hv
  | getMany n =>
    rw [extended_of_silent fun _ => rfl, handle_getMany]
    exact h.gets hv n
  | fail e leased => exact h.fail hv e leased
  | succeed e => exact h.succeed hv e
  | hold e =>
    rw [extended_of_silent fun _ => rfl]
    exact h.lease hv e (fun _ => rfl) (fun _ => rfl) fun _ => rfl
  | release e =>
    rw [extended_of_silent fun _ => rfl]
    exact h.lease hv e (fun _ => rfl) (fun _ => rfl) fun _ => rfl
  | remove e =>
    rw [extended_of_silent fun _ => rfl]
    exact h.remove hv e
  | query e =>
    rw [extended_of_silent fun _ => rfl]
    exact h
  | close =>
    rw [extended_of_silent fun _ => rfl]
    exact h.close
  | advance t =>
    rw [extended_of_silent fun _ => rfl]
    exact fun r hr => (h r hr).later (Nat.le_add_right _ _)

theorem Records.handleAll (h : Records history d) (hv : d.pool.Valid) (requests : List Request) :
    Records (fun i => history i ++ d.reports i requests) (d.handleAll requests) := by
  induction requests generalizing d history with
  | nil => simpa [reports] using h
  | cons q requests ih =>
    simpa [extended, reports] using ih (h.handle hv q) (follows_handle hv q).pool.valid

/-- Enough failures count, and the latest of them is not long ago. -/
def Quarantined (s : Settings) (now : Duration) (failures : List Duration) : Prop :=
  max 1 s.retryLimit ≤ failures.length ∧
    ∃ last, failures.head? = some last ∧ now - last < s.retryInterval

theorem Knows.toNat_errors (h : Knows now failures r) (hfew : failures.length < UInt32.size) :
    r.errors.toNat = failures.length := by
  rw [h.errors]
  exact UInt32.toNat_ofNat_of_lt' hfew

theorem Knows.isFree_iff (h : Knows now' failures r) (hfew : failures.length < UInt32.size) (s : Settings)
    (now : Duration) : r.isFree s now = false ↔ Quarantined s now failures := by
  have hzero : r.errors = 0 ↔ failures.length = 0 := by
    rw [← UInt32.toNat_inj, h.toNat_errors hfew]
    rfl
  simp only [Registration.isFree, Option.isNone_eq_false_iff, Registration.quarantine?, Quarantined, hzero,
    h.toNat_errors hfew, h.last]
  cases failures with
  | nil => simp
  | cons last failures =>
    have hmax : max 1 s.retryLimit ≤ failures.length + 1 ↔ ¬ failures.length + 1 < s.retryLimit := by omega
    simp only [List.length_cons, hmax, List.head?_cons]
    by_cases hlimit : failures.length + 1 < s.retryLimit
    · simp [hlimit]
    · by_cases hlong : now - last < s.retryInterval
      · simp [hlimit, hlong]
      · simp [hlimit, hlong]

/-- What is decided by the history: who is in quarantine, at any time until the next request, and who is chosen
for the next caller, however a random choice falls. The number of the failures since the last success is kept in
32 bits, and quarantine is a matter of that number as long as it fits. -/
structure Decided (s : Settings) (history : Nat → List Report) (d : Desk) : Prop where
  settings : d.pool.settings = s
  quarantined_iff : ∀ r ∈ d.pool.entries,
    (Report.counted (history r.endpoint.index)).length < UInt32.size → ∀ now,
      d.pool.quarantined r.endpoint now = true ↔ Quarantined s now (Report.counted (history r.endpoint.index))
  errors : ∀ r ∈ d.pool.entries,
    d.pool.errors? r.endpoint = some (.ofNat (Report.counted (history r.endpoint.index)).length)
  chosen : ∀ draws e d', ({ d with draws := draws } : Desk).get = (.ok e, d') →
    ∃ i r, e = r.endpoint ∧ d.pool.Chosen d'.now i r
  -- One who waits while others ask chooses among the entries that are there then.
  chosen_amid : ∀ others draws e d',
    acquire (amid others) s.waitAttempts 0 { d with draws := draws } = (.ok e, d') →
      ∃ d₁ i r, Waited (amid others) { d with draws := draws } d₁ ∧ d'.clock = d₁.clock ∧
        d'.pool = d₁.pool.passTurn i ∧ e = r.endpoint ∧ d₁.pool.Chosen d₁.now i r
  granted : ∀ draws r, d.pool.closed = false → r ∈ d.pool.entries →
    d.pool.quarantined r.endpoint d.now = false →
    ∃ e d', ({ d with draws := draws } : Desk).get = (.ok e, d') ∧ d'.clock = d.clock

theorem Records.decided (h : Records history d) (hv : d.pool.Valid) (hs : d.pool.settings = s) :
    Decided s history d where
  settings := hs
  quarantined_iff r hr hfew now := by
    rw [hv.not_free_iff hr, (h r hr).isFree_iff hfew, hs]
  errors r hr := by
    rw [Pool.errors?, hv.find?_endpoint hr, Option.map_some, (h r hr).errors]
  chosen draws e d' hget := by
    obtain ⟨-, hsel, -⟩ := get_granted hget
    obtain ⟨i, r, -, he, -, hchosen⟩ := Pool.select?_cases hv hsel
    exact ⟨i, r, he, hchosen⟩
  chosen_amid others draws e d' hget := by
    obtain ⟨d₁, hwaited, ⟨_, q, he, -, hsel, rfl⟩ | ⟨⟨_, he⟩, -⟩⟩ := acquire_cases hget
    · have hv₁ : d₁.pool.Valid := valid_amid (d := { d with draws := draws }) hv hwaited
      obtain ⟨i, r, -, rfl, rfl, hchosen⟩ := Pool.select?_cases hv₁ hsel
      exact ⟨d₁, i, r, hwaited, rfl, rfl, Except.ok.inj he, hchosen⟩
    · cases he
  granted draws r hopen hr hfree :=
    get_of_free (d := { d with draws := draws }) hopen hr ((hv.free_iff hr).mp hfree)

/-- Whatever was asked of a desk since its pool was built, the reports decide. -/
theorem decided_of_handleAll (h : Pool.build given s = .ok p) (clock : Clock) (draws : Nat)
    (requests : List Request) :
    Decided s (fun i => (Desk.mk p clock draws).reports i requests)
      ((Desk.mk p clock draws).handleAll requests) := by
  have hv : (Desk.mk p clock draws).pool.Valid := Pool.valid_build h
  have hfollows := follows_handleAll hv requests
  have hrecords := (records_build h clock draws).handleAll hv requests
  have hs : p.settings = s := by rw [Pool.build_eq h]
  simpa using hrecords.decided hfollows.pool.valid (hfollows.pool.settings.trans hs)

/-- Two endpoints, the first of which fails at 5 seconds and at 6; the failure between is that of an older lease. -/
def twoFailures : List Request :=
  [.advance (.ofSeconds 5), .fail ⟨0, "a", none⟩ none, .fail ⟨0, "a", none⟩ (some (.ofSeconds 3)),
    .advance (.ofSeconds 1), .fail ⟨0, "a", none⟩ (some (.ofSeconds 5)), .get]

theorem decided_of_twoFailures :
    let s : Settings := ⟨.roundRobin, 2, .ofSeconds 60, 0, none⟩
    let p : Pool := ⟨s, Pool.registered [⟨0, "a", none⟩, ⟨0, "b", none⟩], 0, false⟩
    let d : Desk := ⟨p, .start false, 0⟩
    Pool.build [⟨0, "a", none⟩, ⟨0, "b", none⟩] s = .ok p ∧
      Decided s (fun i => d.reports i twoFailures) (d.handleAll twoFailures) ∧
      (d.handleAll twoFailures).pool.quarantined ⟨0, "a", none⟩ (.ofSeconds 6) = true ∧
      Report.counted (d.reports 0 twoFailures) = [.ofSeconds 6, .ofSeconds 5] := by
  intro s p d
  have hbuild : Pool.build [⟨0, "a", none⟩, ⟨0, "b", none⟩] s = .ok p := by decide
  exact ⟨hbuild, decided_of_handleAll hbuild (.start false) 0 twoFailures, by decide +kernel, by decide +kernel⟩

end Desk
end BatchJob.Endpoint
