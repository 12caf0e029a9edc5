import BatchJob.Proofs.Endpoint.Accesses

/-! Outages. While an endpoint is down all leases of it fail, one after another. A failure is counted only if its
lease was handed out after the last failure that was counted, so an outage is counted once, however many leases it
takes with it. -/
namespace BatchJob.Endpoint

/-- An endpoint that was handed out at one time and reported as failed at another. -/
structure Lease where
  start : Duration
  failed : Duration
  deriving DecidableEq, Repr

namespace Lease

def report (l : Lease) : Report := .failed (some l.start) l.failed

/-- A lease is counted after those before it unless the last of them failed after it was handed out. -/
def count (counted : List Lease) (l : Lease) : List Lease :=
  if counted.getLast?.all (·.failed ≤ l.start) then counted ++ [l] else counted

/-- The leases that are counted, of those that are reported one after another. -/
def chain (leases : List Lease) : List Lease := leases.foldl count []

variable {leases : List Lease} {l first : Lease}

@[simp] theorem chain_nil : chain [] = [] := rfl

@[simp] theorem chain_snoc (leases : List Lease) (l : Lease) : chain (leases ++ [l]) = count (chain leases) l := by
  simp [chain]

theorem count_cases (counted : List Lease) (l : Lease) :
    ((∀ c ∈ counted.getLast?, c.failed ≤ l.start) ∧ count counted l = counted ++ [l]) ∨
      (∃ c, counted.getLast? = some c ∧ l.start < c.failed) ∧ count counted l = counted := by
  rw [count]
  cases hlast : counted.getLast? with
  | none => exact Or.inl ⟨by simp, rfl⟩
  | some c =>
    by_cases hle : c.failed ≤ l.start
    · exact Or.inl ⟨by simpa using hle, by simp [hle]⟩
    · exact Or.inr ⟨⟨c, rfl, Nat.lt_of_not_le hle⟩, by simp [hle]⟩

theorem chain_sublist (leases : List Lease) : (chain leases).Sublist leases := by
  induction leases using List.reverseRecOn with
  | nil => exact .slnil
  | append_singleton leases l ih =>
    rw [chain_snoc]
    rcases count_cases (chain leases) l with ⟨-, heq⟩ | ⟨-, heq⟩
    · rw [heq]
      exact ih.append (.refl _)
    · rw [heq]
      exact ih.trans (List.sublist_append_left _ _)

theorem mem_chain_append {c : Lease} (h : c ∈ chain leases) (later : List Lease) : c ∈ chain (leases ++ later) := by
  induction later using List.reverseRecOn with
  | nil => rwa [List.append_nil]
  | append_singleton later l ih =>
    rw [← List.append_assoc, chain_snoc]
    rcases count_cases (chain (leases ++ later)) l with ⟨-, heq⟩ | ⟨-, heq⟩
    · rw [heq]
      exact List.mem_append_left _ ih
    · rw [heq]
      exact ih

theorem pairwise_chain (h : ∀ l ∈ leases, l.start ≤ l.failed) :
    (chain leases).Pairwise fun l l' => l.failed ≤ l'.start := by
  induction leases using List.reverseRecOn with
  | nil => exact .nil
  | append_singleton leases l ih =>
    have hleases : ∀ l ∈ leases, l.start ≤ l.failed := fun l hl => h l (List.mem_append_left _ hl)
    have hchain := ih hleases
    rw [chain_snoc]
    rcases count_cases (chain leases) l with ⟨hafter, heq⟩ | ⟨-, heq⟩
    · rw [heq, List.pairwise_append]
      refine ⟨hchain, List.pairwise_singleton _ _, fun x hx y hy => ?_⟩
      rw [List.mem_singleton.mp hy]
      rcases List.eq_nil_or_concat' (chain leases) with hnil | ⟨before, c, hsplit⟩
      · rw [hnil] at hx
        cases hx
      · have hc : c.failed ≤ l.start := hafter c (by simp [hsplit])
        have hmem : c ∈ leases := (chain_sublist leases).subset (by simp [hsplit])
        rw [hsplit] at hx hchain
        rcases List.mem_append.mp hx with hx | hx
        · have hle : x.failed ≤ c.start := (List.pairwise_append.mp hchain).2.2 x hx c List.mem_cons_self
          exact Nat.le_trans hle (Nat.le_trans (hleases c hmem) hc)
        · rw [List.mem_singleton.mp hx]
          exact hc
    · rw [heq]
      exact hchain

theorem chain_of_burst (h : ∀ l ∈ leases, l.start < first.failed) : chain (first :: leases) = [first] := by
  induction leases using List.reverseRecOn with
  | nil => rfl
  | append_singleton leases l ih =>
    have hlate : ¬ first.failed ≤ l.start := Nat.not_le.mpr (h l (by simp))
    rw [← List.cons_append, chain_snoc, ih fun l hl => h l (List.mem_append_left _ hl)]
    simp [count, hlate]

end Lease

namespace Registration
variable {r : Registration} {leases : List Lease}

theorem hears_lease (r : Registration) (l : Lease) :
    r.hears l.report = if r.lastFailure.all (· ≤ l.start) then r.fail l.failed else r := by
  rw [Lease.report, hears, counts]
  cases r.lastFailure <;> rfl

theorem hearsAll_leases (h : r.lastFailure = none) (leases : List Lease) :
    (r.hearsAll (leases.map Lease.report)).errors = r.errors + .ofNat (Lease.chain leases).length ∧
      (r.hearsAll (leases.map Lease.report)).lastFailure = (Lease.chain leases).getLast?.map (·.failed) := by
  induction leases using List.reverseRecOn with
  | nil => exact ⟨by simp, h⟩
  | append_singleton leases l ih =>
    obtain ⟨herrors, hlast⟩ := ih
    have hall : (r.hearsAll (leases.map Lease.report)).lastFailure.all (· ≤ l.start) =
        (Lease.chain leases).getLast?.all (·.failed ≤ l.start) := by
      rw [hlast, Option.all_map]
    rw [List.map_append, hearsAll_append, List.map_singleton, hearsAll_cons, hearsAll_nil, hears_lease, hall,
      Lease.chain_snoc, Lease.count]
    split
    · simp [Registration.fail, herrors, UInt32.ofNat_add, UInt32.add_assoc]
    · exact ⟨herrors, hlast⟩

end Registration

namespace Pool
variable {p q : Pool} {a : Access} {r r' x : Registration} {s : Settings} {given : List Endpoint} {i : Nat}
variable {accesses before after : List Access} {leases earlier : List Lease} {l : Lease}

theorem WellFormed.heard_of_endpoint (h : WellFormed given s p) (hr : r ∈ p.entries)
    (hx : x ∈ (p.afterAll accesses).entries) (he : x.endpoint = r.endpoint) :
    x.bare = r.bare.hearsAll (p.tidings r.endpoint.index accesses) := by
  obtain ⟨y, hy, hye, hbare⟩ := h.heard hx
  obtain rfl : y = r := h.valid.eq_of_index hy hr (by rw [hye, he])
  exact hbare

theorem WellFormed.counts_leases (h : WellFormed given s p) (hr : r ∈ p.entries) (hnone : r.lastFailure = none)
    (hx : x ∈ (p.afterAll accesses).entries) (he : x.endpoint = r.endpoint)
    (hleases : p.tidings r.endpoint.index accesses = leases.map Lease.report) :
    ((Lease.chain leases).length < UInt32.size → x.errors.toNat = r.errors.toNat + (Lease.chain leases).length) ∧
      x.lastFailure = (Lease.chain leases).getLast?.map (·.failed) := by
  have hheard := h.heard_of_endpoint hr hx he
  obtain ⟨herrors, hlast⟩ := Registration.hearsAll_leases (r := r.bare) hnone leases
  rw [← hleases, ← hheard] at herrors hlast
  refine ⟨fun hfew => ?_, hlast⟩
  have hcount : x.errors = .ofNat (Lease.chain leases).length := by
    simpa [h.errors r hr hnone] using herrors
  rw [hcount, h.errors r hr hnone, UInt32.toNat_ofNat_of_lt' hfew]
  simp

/-- What the failures of some leases come to, all that is told of a registration during some accesses, which did
not know of a failure before and is still there at the end. The counter tells the number as long as it fits. -/
structure CountedOnce (p : Pool) (accesses : List Access) (leases : List Lease) (r r' : Registration) : Prop where
  errors : (Lease.chain leases).length < UInt32.size →
    r'.errors.toNat = r.errors.toNat + (Lease.chain leases).length
  last : r'.lastFailure = (Lease.chain leases).getLast?.map (·.failed)
  -- The same at any time between, of the leases that have failed so far.
  along : ∀ before after, accesses = before ++ after → ∃ earlier later x, leases = earlier ++ later ∧
    p.tidings r.endpoint.index before = earlier.map Lease.report ∧
    x ∈ (p.afterAll before).entries ∧ x.endpoint = r.endpoint ∧
    ((Lease.chain earlier).length < UInt32.size →
      x.errors.toNat = r.errors.toNat + (Lease.chain earlier).length) ∧
    x.lastFailure = (Lease.chain earlier).getLast?.map (·.failed)
  greedy : ∀ earlier l later, leases = earlier ++ l :: later →
    (∀ c ∈ (Lease.chain earlier).getLast?, c.failed ≤ l.start) →
      Lease.chain (earlier ++ [l]) = Lease.chain earlier ++ [l]
  stale : ∀ earlier l later, leases = earlier ++ l :: later →
    ¬ (∀ c ∈ (Lease.chain earlier).getLast?, c.failed ≤ l.start) →
    Lease.chain (earlier ++ [l]) = Lease.chain earlier ∧ ∃ c ∈ Lease.chain leases, l.start < c.failed
  -- What is not counted leaves the pool as it is, and with it every quarantine.
  unnoticed : ∀ before a after earlier l, accesses = before ++ a :: after →
    p.tidings r.endpoint.index before = earlier.map Lease.report →
    (p.afterAll before).told r.endpoint.index a = [l.report] →
    Lease.chain (earlier ++ [l]) = Lease.chain earlier → (p.afterAll before).after a = p.afterAll before
  apart : (Lease.chain leases).Pairwise fun l l' => l.failed ≤ l'.start
  burst : ∀ first later, leases = first :: later → (∀ l ∈ leases, l.start < first.failed) →
    r'.errors.toNat = r.errors.toNat + 1

theorem WellFormed.after_eq_put (h : WellFormed given s p) (htold : p.told i a = [l.report])
    (hx : x ∈ (p.after a).entries) (hi : x.endpoint.index = i) :
    ∃ j r, p.entries[j]? = some r ∧ r.endpoint.index = i ∧ p.after a = p.put j (r.hears l.report) := by
  generalize hq : p.after a = q at hx
  have heffect := effect_after p a
  rw [hq] at heffect
  cases heffect with
  | aside silent settings entries cursor =>
    rw [silent] at htold
    cases htold
  | @told j r report entry told limit =>
    rw [told] at htold
    split at htold
    case isTrue hindex =>
      obtain rfl := List.head_eq_of_cons_eq htold
      exact ⟨j, r, entry, hindex, rfl⟩
    case isFalse => cases htold
  | @removed j r entry others others_left =>
    have hne := (h.valid.mem_removeAt entry hx).2
    rw [others i (hi ▸ hne)] at htold
    cases htold

/-- What is not counted changes nothing. -/
theorem WellFormed.after_eq_self (h : WellFormed given s p) (hr : r ∈ p.entries) (hnone : r.lastFailure = none)
    (hbefore : p.tidings r.endpoint.index before = earlier.map Lease.report)
    (htold : (p.afterAll before).told r.endpoint.index a = [l.report])
    (hx : x ∈ ((p.afterAll before).after a).entries) (he : x.endpoint = r.endpoint)
    (hsame : Lease.chain (earlier ++ [l]) = Lease.chain earlier) :
    (p.afterAll before).after a = p.afterAll before := by
  have hwell := h.afterAll before
  obtain ⟨j, y, hy, hindex, heq⟩ := hwell.after_eq_put htold hx (by rw [he])
  have hmem := List.mem_of_getElem? hy
  have hye : y.endpoint = r.endpoint := by
    obtain ⟨z, hz, hze, -⟩ := h.heard hmem
    rw [← hze, h.valid.eq_of_index hz hr (by rw [hze, hindex])]
  obtain ⟨-, hlast⟩ := h.counts_leases hr hnone hmem hye hbefore
  rcases Lease.count_cases (Lease.chain earlier) l with ⟨-, hcounted⟩ | ⟨⟨c, hc, hlt⟩, -⟩
  · rw [Lease.chain_snoc, hcounted] at hsame
    simp at hsame
  · have hall : y.lastFailure.all (· ≤ l.start) = false := by
      rw [hlast, hc]
      exact decide_eq_false (Nat.not_le.mpr hlt)
    have hears : y.hears l.report = y := by simp [Registration.hears_lease, hall]
    rw [heq, hears, put_self hy]

theorem WellFormed.countedOnce (h : WellFormed given s p) (hr : r ∈ p.entries) (hnone : r.lastFailure = none)
    (hr' : r' ∈ (p.afterAll accesses).entries) (he : r'.endpoint = r.endpoint)
    (hleases : p.tidings r.endpoint.index accesses = leases.map Lease.report)
    (hstart : ∀ l ∈ leases, l.start ≤ l.failed) : CountedOnce p accesses leases r r' := by
  obtain ⟨herrors, hlast⟩ := h.counts_leases hr hnone hr' he hleases
  -- It was there all the time.
  have hthere : ∀ before after, accesses = before ++ after →
      ∃ x ∈ (p.afterAll before).entries, x.endpoint = r.endpoint := by
    rintro before after rfl
    rw [afterAll_append] at hr'
    obtain ⟨x, hx, hxe, -⟩ := (h.afterAll before).heard hr'
    exact ⟨x, hx, hxe.trans he⟩
  refine ⟨herrors, hlast, ?along, ?greedy, ?stale, ?unnoticed, Lease.pairwise_chain hstart, ?burst⟩
  case along =>
    intro before after hsplit
    obtain ⟨x, hx, hxe⟩ := hthere before after hsplit
    rw [hsplit, tidings_append] at hleases
    obtain ⟨earlier, later, hl, hearlier, -⟩ := List.map_eq_append_iff.mp hleases.symm
    obtain ⟨hxerrors, hxlast⟩ := h.counts_leases hr hnone hx hxe hearlier.symm
    exact ⟨earlier, later, x, hl, hearlier.symm, hx, hxe, hxerrors, hxlast⟩
  case greedy =>
    intro earlier l later _ hafter
    rcases Lease.count_cases (Lease.chain earlier) l with ⟨-, hcounted⟩ | ⟨⟨c, hc, hlt⟩, -⟩
    · rw [Lease.chain_snoc, hcounted]
    · exact absurd (hafter c hc) (Nat.not_le.mpr hlt)
  case stale =>
    intro earlier l later hsplit hbefore
    rcases Lease.count_cases (Lease.chain earlier) l with ⟨hafter, -⟩ | ⟨⟨c, hc, hlt⟩, hsame⟩
    · exact absurd hafter hbefore
    · rw [Lease.chain_snoc, hsplit]
      exact ⟨hsame, c, Lease.mem_chain_append (List.mem_of_getLast? hc) _, hlt⟩
  case unnoticed =>
    intro before a after earlier l hsplit hbefore htold hsame
    obtain ⟨x, hx, hxe⟩ := hthere (before ++ [a]) after (by simp [hsplit])
    rw [afterAll_append] at hx
    exact h.after_eq_self hr hnone hbefore htold hx hxe hsame
  case burst =>
    rintro first later rfl hburst
    have hlater : ∀ l ∈ later, l.start < first.failed := fun l hl => hburst l (List.mem_cons_of_mem _ hl)
    have hchain := Lease.chain_of_burst hlater
    rw [hchain] at herrors
    exact herrors (by simp [UInt32.size])

/-- An endpoint without a failure, of a pool to which anything was done since it was built. -/
theorem countedOnce_of_leases {past : List Access} (h : build given s = .ok p)
    (hr : r ∈ (p.afterAll past).entries) (hnone : r.lastFailure = none)
    (hr' : r' ∈ ((p.afterAll past).afterAll accesses).entries) (he : r'.endpoint = r.endpoint)
    (hleases : (p.afterAll past).tidings r.endpoint.index accesses = leases.map Lease.report)
    (hstart : ∀ l ∈ leases, l.start ≤ l.failed) : CountedOnce (p.afterAll past) accesses leases r r' :=
  ((wellFormed_build h).1.afterAll past).countedOnce hr hnone hr' he hleases hstart

/-- Four leases of the first endpoint. The second was handed out before the first failed; the third when it did. -/
def fourLeases : List Lease :=
  [⟨.ofSeconds 0, .ofSeconds 5⟩, ⟨.ofSeconds 3, .ofSeconds 6⟩, ⟨.ofSeconds 5, .ofSeconds 7⟩,
    ⟨.ofSeconds 6, .ofSeconds 8⟩]

/-- Others fail, are chosen and are removed meanwhile. -/
def fourFailures : List Access :=
  [.hold ⟨0, "a", none⟩, .fail ⟨0, "a", none⟩ (some (.ofSeconds 0)) (.ofSeconds 5),
    .fail ⟨1, "b", none⟩ none (.ofSeconds 5), .fail ⟨0, "a", none⟩ (some (.ofSeconds 3)) (.ofSeconds 6),
    .look (.ofSeconds 6) 0 0, .fail ⟨0, "a", none⟩ (some (.ofSeconds 5)) (.ofSeconds 7),
    .remove ⟨1, "b", none⟩, .fail ⟨0, "a", none⟩ (some (.ofSeconds 6)) (.ofSeconds 8)]

theorem countedOnce_of_fourFailures :
    let s : Settings := ⟨.roundRobin, 2, .ofSeconds 60, 3, some 3⟩
    let p : Pool := ⟨s, registered [⟨0, "a", none⟩, ⟨0, "b", none⟩, ⟨0, "c", none⟩], 0, false⟩
    let r : Registration := ⟨⟨0, "a", none⟩, 0, none, 0⟩
    let r' : Registration := ⟨⟨0, "a", none⟩, 2, some (.ofSeconds 7), 1⟩
    let past : List Access := [.fail ⟨0, "a", none⟩ none (.ofSeconds 0), .succeed ⟨0, "a", none⟩]
    build [⟨0, "a", none⟩, ⟨0, "b", none⟩, ⟨0, "c", none⟩] s = .ok p ∧
      r' ∈ ((p.afterAll past).afterAll fourFailures).entries ∧
      CountedOnce (p.afterAll past) fourFailures fourLeases r r' := by
  intro s p r r' past
  have hbuild : build [⟨0, "a", none⟩, ⟨0, "b", none⟩, ⟨0, "c", none⟩] s = .ok p := by decide
  have hr' : r' ∈ ((p.afterAll past).afterAll fourFailures).entries := by decide +kernel
  exact ⟨hbuild, hr', countedOnce_of_leases hbuild (by decide) rfl hr' rfl (by decide +kernel) (by decide)⟩

end Pool
end BatchJob.Endpoint
