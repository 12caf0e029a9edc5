import Mathlib.Data.List.Induction
import BatchJob.Proofs.Worker.Shift

/-! A ranking keeps the slowest of all that were put into it. What it has thrown out is no slower than anything it
keeps, and nothing was thrown out before it was full; so its durations are the first of all durations in descending
order, whatever the order in which they came. A pool of workers puts every unit that completes into its own. -/
namespace BatchJob.Worker

def descending (ds : List Duration) : List Duration := ds.mergeSort fun a b => b ≤ a

theorem pairwise_descending (ds : List Duration) : (descending ds).Pairwise fun a b => b ≤ a := by
  have h := @List.pairwise_mergeSort _ (fun a b : Duration => decide (b ≤ a))
    (by simp only [decide_eq_true_eq, Duration.le_iff]; omega)
    (by simp only [Bool.or_eq_true, decide_eq_true_eq, Duration.le_iff]; omega) ds
  simpa [descending] using h

theorem perm_descending (ds : List Duration) : (descending ds).Perm ds := List.mergeSort_perm ds _

theorem eq_descending {xs ds : List Duration} (h : xs.Pairwise fun a b => b ≤ a) (hperm : xs.Perm ds) :
    xs = descending ds := by
  refine List.Perm.eq_of_pairwise (fun a b _ _ hba hab => Duration.ext ?_) h (pairwise_descending ds)
    (hperm.trans (perm_descending ds).symm)
  exact Nat.le_antisymm hab hba

theorem descending_append {xs ys : List Duration} (h : ∀ x ∈ xs, ∀ y ∈ ys, y ≤ x) :
    descending (xs ++ ys) = descending xs ++ descending ys := by
  refine (eq_descending ?_ ((perm_descending xs).append (perm_descending ys))).symm
  refine List.pairwise_append.mpr ⟨pairwise_descending xs, pairwise_descending ys, fun x hx y hy => ?_⟩
  exact h x ((perm_descending xs).mem_iff.mp hx) y ((perm_descending ys).mem_iff.mp hy)

namespace Ranking
variable {r : Ranking} {es rest timings : List Timing} {t : Timing}

/-- The first of the quickest is the one that may have to go. -/
theorem replaceQuickest_cases (t : Timing) (hne : es ≠ []) : ∃ before quickest after,
    es = before ++ quickest :: after ∧
      (∀ x ∈ before, quickest.elapsed < x.elapsed) ∧ (∀ x ∈ after, quickest.elapsed ≤ x.elapsed) ∧
      replaceQuickest t es = before ++ (if quickest.elapsed < t.elapsed then t else quickest) :: after := by
  induction es with
  | nil => exact absurd rfl hne
  | cons e es ih =>
    rw [replaceQuickest]
    split
    case isTrue hall =>
      exact ⟨[], e, es, rfl, by simp, by simpa using hall, rfl⟩
    case isFalse hsome =>
      obtain ⟨x, hx, hlt⟩ : ∃ x ∈ es, ¬ e.elapsed ≤ x.elapsed := by simpa using hsome
      obtain ⟨before, quickest, after, rfl, hbefore, hafter, heq⟩ := ih (List.ne_nil_of_mem hx)
      refine ⟨e :: before, quickest, after, rfl, fun y hy => ?_, hafter, by rw [heq, List.cons_append]⟩
      rcases List.mem_cons.mp hy with rfl | hy
      · -- Somebody after it is quicker, and the quickest is no slower than that one.
        have hle : quickest.elapsed ≤ x.elapsed := by
          rcases List.mem_append.mp hx with hx | hx
          · exact Nat.le_of_lt (hbefore x hx)
          · rcases List.mem_cons.mp hx with rfl | hx
            · exact Nat.le_refl _
            · exact hafter x hx
        exact Nat.lt_of_le_of_lt hle (Nat.lt_of_not_le hlt)
      · exact hbefore y hy

def insertAll (r : Ranking) (timings : List Timing) : Ranking := timings.foldl insert r

theorem insertAll_snoc (r : Ranking) (timings : List Timing) (t : Timing) :
    r.insertAll (timings ++ [t]) = (r.insertAll timings).insert t := by
  rw [insertAll, List.foldl_append]
  rfl

/-- Of the timings that came, those in `rest` were thrown out. -/
structure Keeps (r : Ranking) (timings rest : List Timing) : Prop where
  perm : (r.entries ++ rest).Perm timings
  slower : ∀ e ∈ r.entries, ∀ x ∈ rest, x.elapsed ≤ e.elapsed
  length_le : r.entries.length ≤ r.capacity
  full : rest ≠ [] → r.entries.length = r.capacity

theorem keeps_empty (c : Nat) : (empty c).Keeps [] [] := ⟨.refl _, by simp [empty], Nat.zero_le _, by simp⟩

theorem Keeps.push (h : r.Keeps timings rest) (hroom : r.entries.length < r.capacity) (t : Timing) :
    ({ r with entries := r.entries ++ [t] } : Ranking).Keeps (timings ++ [t]) rest := by
  have hnil : rest = [] := by
    by_contra hne
    exact Nat.ne_of_lt hroom (h.full hne)
  subst hnil
  refine ⟨?_, by simp, ?_, by simp⟩
  · simpa using h.perm.append_right [t]
  · simpa using Nat.succ_le_of_lt hroom

theorem Keeps.replace (h : r.Keeps timings rest) (hfull : r.entries.length = r.capacity) (hne : r.entries ≠ [])
    (t : Timing) : ∃ rest',
      ({ r with entries := replaceQuickest t r.entries } : Ranking).Keeps (timings ++ [t]) rest' := by
  obtain ⟨before, quickest, after, hsplit, hbefore, hafter, heq⟩ := replaceQuickest_cases t hne
  have hleast : ∀ x ∈ r.entries, quickest.elapsed ≤ x.elapsed := by
    intro x hx
    rw [hsplit] at hx
    rcases List.mem_append.mp hx with hx | hx
    · exact Nat.le_of_lt (hbefore x hx)
    · rcases List.mem_cons.mp hx with rfl | hx
      · exact Nat.le_refl _
      · exact hafter x hx
  have hlen : (replaceQuickest t r.entries).length = r.capacity := (length_replaceQuickest t _).trans hfull
  -- What has to go is the first of the quickest, or the one that has just come.
  by_cases hlt : quickest.elapsed < t.elapsed
  · rw [if_pos hlt] at heq
    refine ⟨quickest :: rest, ?_, ?_, Nat.le_of_eq hlen, fun _ => hlen⟩
    · have hperm := h.perm.append_right [t]
      rw [hsplit] at hperm
      refine List.Perm.trans ?_ hperm
      rw [heq]
      grind
    · intro e he x hx
      simp only [heq, List.mem_append, List.mem_cons] at he
      have hin : e = t ∨ e ∈ r.entries := by
        rw [hsplit]
        simp only [List.mem_append, List.mem_cons]
        tauto
      rcases List.mem_cons.mp hx with rfl | hx
      · rcases hin with rfl | hin
        · exact Nat.le_of_lt hlt
        · exact hleast e hin
      · rcases hin with rfl | hin
        · have hq : quickest ∈ r.entries := by simp [hsplit]
          exact Nat.le_trans (h.slower quickest hq x hx) (Nat.le_of_lt hlt)
        · exact h.slower e hin x hx
  · rw [if_neg hlt, ← hsplit] at heq
    have hsame : ({ r with entries := replaceQuickest t r.entries } : Ranking) = r := by rw [heq]
    rw [hsame]
    refine ⟨rest ++ [t], by simpa using h.perm.append_right [t], fun e he x hx => ?_, h.length_le, fun _ => hfull⟩
    rcases List.mem_append.mp hx with hx | hx
    · exact h.slower e he x hx
    · rw [List.mem_singleton.mp hx]
      exact Nat.le_trans (Nat.le_of_not_lt hlt) (hleast e he)

theorem Keeps.insert (h : r.Keeps timings rest) (t : Timing) : ∃ rest', (r.insert t).Keeps (timings ++ [t]) rest' := by
  rw [Ranking.insert]
  split
  case isTrue hzero =>
    -- Nothing is ever kept.
    have hnil : r.entries = [] := List.length_eq_zero_iff.mp (Nat.le_zero.mp (hzero ▸ h.length_le))
    refine ⟨rest ++ [t], by simpa using h.perm.append_right [t], by simp [hnil], h.length_le, fun _ => ?_⟩
    rw [hnil, hzero, List.length_nil]
  case isFalse hpos =>
    split
    case isTrue hroom => exact ⟨rest, h.push hroom t⟩
    case isFalse hfull =>
      have hlen : r.entries.length = r.capacity := Nat.le_antisymm h.length_le (Nat.le_of_not_lt hfull)
      refine h.replace hlen (fun hnil => hpos ?_) t
      rw [← hlen, hnil, List.length_nil]

theorem exists_keeps (c : Nat) (timings : List Timing) : ∃ rest, ((empty c).insertAll timings).Keeps timings rest := by
  induction timings using List.reverseRecOn with
  | nil => exact ⟨[], keeps_empty c⟩
  | append_singleton timings t ih =>
    obtain ⟨rest, h⟩ := ih
    rw [insertAll_snoc]
    exact h.insert t

@[simp] theorem capacity_insertAll (r : Ranking) (timings : List Timing) :
    (r.insertAll timings).capacity = r.capacity := by
  induction timings using List.reverseRecOn with
  | nil => rfl
  | append_singleton timings t ih => rw [insertAll_snoc, capacity_insert, ih]

theorem pairwise_toList (r : Ranking) : r.toList.Pairwise fun a b => b.elapsed ≤ a.elapsed := by
  have h := @List.pairwise_mergeSort _ (fun a b : Timing => decide (b.elapsed ≤ a.elapsed))
    (by simp only [decide_eq_true_eq, Duration.le_iff]; omega)
    (by simp only [Bool.or_eq_true, decide_eq_true_eq, Duration.le_iff]; omega) r.entries
  simpa [toList] using h

theorem map_elapsed_toList (r : Ranking) : r.toList.map (·.elapsed) = descending (r.entries.map (·.elapsed)) :=
  eq_descending (List.pairwise_map.mpr r.pairwise_toList) (r.perm_toList.map _)

/-- The `c` slowest of the timings, slowest first. -/
structure Slowest (c : Nat) (timings ranked : List Timing) : Prop where
  length_eq : ranked.length = min c timings.length
  pairwise : ranked.Pairwise fun a b => b.elapsed ≤ a.elapsed
  durations : ranked.map (·.elapsed) = (descending (timings.map (·.elapsed))).take c
  subperm : ranked.Subperm timings

theorem Keeps.length_eq (h : r.Keeps timings rest) : r.entries.length = min r.capacity timings.length := by
  have hlen : r.entries.length + rest.length = timings.length := by simpa using h.perm.length_eq
  have hle := h.length_le
  rcases List.eq_nil_or_concat' rest with rfl | ⟨init, x, rfl⟩
  · simp only [List.length_nil] at hlen
    omega
  · have hfull := h.full (by simp)
    omega

theorem Keeps.durations (h : r.Keeps timings rest) :
    descending (r.entries.map (·.elapsed)) = (descending (timings.map (·.elapsed))).take r.capacity := by
  have hall : descending (timings.map (·.elapsed)) =
      descending (r.entries.map (·.elapsed)) ++ descending (rest.map (·.elapsed)) := by
    rw [← descending_append]
    · refine (eq_descending (pairwise_descending _) ((perm_descending _).trans ?_)).symm
      rw [← List.map_append]
      exact h.perm.map _
    · intro d hd x hx
      obtain ⟨e, he, rfl⟩ := List.mem_map.mp hd
      obtain ⟨y, hy, rfl⟩ := List.mem_map.mp hx
      exact h.slower e he y hy
  have hlen : (descending (r.entries.map (·.elapsed))).length = r.entries.length := by
    rw [(perm_descending _).length_eq, List.length_map]
  rw [hall]
  by_cases hrest : rest = []
  · subst hrest
    rw [List.map_nil, descending, descending, List.mergeSort_nil, List.append_nil,
      List.take_of_length_le]
    exact hlen ▸ h.length_le
  · rw [List.take_left']
    exact hlen.trans (h.full hrest)

theorem Keeps.slowest (h : r.Keeps timings rest) : Slowest r.capacity timings r.toList where
  length_eq := by rw [length_toList, h.length_eq]
  pairwise := r.pairwise_toList
  durations := by rw [map_elapsed_toList, h.durations]
  subperm := by
    have hall : r.entries.Subperm timings := (List.sublist_append_left r.entries rest).subperm.trans h.perm.subperm
    exact r.perm_toList.subperm.trans hall

end Ranking

def Completed.timing (c : Completed) : Timing := ⟨c.task.unit.identifier, c.outcome.elapsed⟩

namespace Pool
variable {p q : Pool} {a : Act}

/-- A unit that completes is put into the ranking, and nothing else ever is. -/
inductive Ranks (p q : Pool) : Prop
  | aside (completions : q.completions = p.completions) (slowest : q.slowest = p.slowest)
  | completed (c : Completed) (completions : q.completions = p.completions ++ [c])
    (slowest : q.slowest = p.slowest.insert c.timing)

theorem ranks_move? {i : Nat} {s : Station} {m : Move} (h : p.move? i s m = some q) : p.Ranks q := by
  cases moved_of_move? h with
  | start =>
    rw [start]
    split <;> exact .aside rfl rfl
  | finish o => exact .completed ⟨_, o⟩ rfl rfl
  | _ => exact .aside rfl rfl

theorem ranks_step (r : Resize) (p : Pool) : p.Ranks (r.step p).2 := by
  cases r with
  | asked count =>
    simp only [Resize.step]
    split <;> exact .aside rfl rfl
  | retiring n => cases n <;> exact .aside rfl rfl
  | reclaiming n =>
    cases n with
    | zero => exact .aside rfl rfl
    | succ n =>
      simp only [Resize.step]
      split <;> exact .aside rfl rfl
  | spawning n => cases n <;> exact .aside rfl rfl
  | done => exact .aside rfl rfl

theorem ranks_perform? (h : p.perform? a = some q) : p.Ranks q := by
  cases a with
  | proceed serial =>
    simp only [perform?, admit?] at h
    split at h
    · cases h
    · split at h <;> cases h
      exact .aside rfl rfl
  | giveUp serial =>
    simp only [perform?, giveUp?] at h
    split at h <;> cases h
    exact .aside rfl rfl
  | drop =>
    simp only [perform?, drop?] at h
    split at h <;> cases h
    exact .aside rfl rfl
  | resize r =>
    cases h
    exact ranks_step r p
  | move hand m =>
    simp only [perform?] at h
    split at h
    · exact ranks_move? h
    · cases h
  | fetch serial =>
    simp only [perform?] at h
    split at h
    · cases h
      rw [fetch]
      split <;> exact .aside rfl rfl
    · cases h
  | receive =>
    cases h
    rw [receive]
    split <;> exact .aside rfl rfl
  | _ =>
    cases h
    exact .aside rfl rfl

/-- The ranking is that of the units that completed, in the order in which they did. -/
def Ranked (c : Nat) (p : Pool) : Prop :=
  p.slowest = (Ranking.empty c).insertAll (p.completions.map Completed.timing)

theorem ranked_create {s : Settings} (h : create s = .ok p) : p.Ranked s.slowest := by
  obtain ⟨-, crew, -, rfl⟩ := create_eq h
  rfl

theorem Ranked.of_ranks {c : Nat} (h : p.Ranked c) (hranks : p.Ranks q) : q.Ranked c := by
  rw [Ranked] at h ⊢
  cases hranks with
  | aside completions slowest => rw [slowest, completions, h]
  | completed done completions slowest =>
    rw [slowest, completions, h, List.map_append, List.map_singleton, Ranking.insertAll_snoc]

end Pool

theorem Floor.ranked_run? {c : Nat} {f g : Floor} {ds : List Deed} (h : f.run? ds = some g) (hf : f.pool.Ranked c) :
    g.pool.Ranked c := by
  have every : ∀ d ∈ ds, True := fun _ _ => trivial
  refine run?_induction (motive := fun f => f.pool.Ranked c) (fun f d g _ hf hd => ?_) h every hf
  obtain ⟨hp, -⟩ | ⟨a, -, hq, -⟩ := step?_cases hd
  · rwa [hp]
  · exact hf.of_ranks (Pool.ranks_perform? hq)

namespace Ranking

/-- Whatever is put into a ranking, it shows the slowest of all, and the durations that it shows do not depend on
the order. The ranking of a pool does so for the units that have completed. -/
theorem slowest_insertAll (c : Nat) (timings : List Timing) :
    Slowest c timings ((empty c).insertAll timings).toList ∧
    (∀ other : List Timing, other.Perm timings →
      ((empty c).insertAll other).toList.map (·.elapsed) = ((empty c).insertAll timings).toList.map (·.elapsed)) ∧
    ∀ s p ds f, Pool.create s = .ok p → (Floor.opened p).run? ds = some f →
      Slowest s.slowest (f.pool.completions.map Completed.timing) f.pool.slowest.toList := by
  have hall : ∀ c timings, Slowest c timings ((empty c).insertAll timings).toList := by
    intro c timings
    obtain ⟨rest, hkeeps⟩ := exists_keeps c timings
    have hslowest := hkeeps.slowest
    rwa [capacity_insertAll] at hslowest
  refine ⟨hall c timings, fun other hperm => ?_, fun s p ds f hp hrun => ?_⟩
  · have hdescending : descending (other.map (·.elapsed)) = descending (timings.map (·.elapsed)) :=
      eq_descending (pairwise_descending _) ((perm_descending _).trans (hperm.map _))
    rw [(hall c other).durations, (hall c timings).durations, hdescending]
  · have hranked : f.pool.slowest = _ := Floor.ranked_run? hrun (Pool.ranked_create hp)
    rw [hranked]
    exact hall _ _

/-- Two of four units took the same time and there are two places; which of the two is shown depends on the order, how
long it took does not. In a pool one unit completed and the other was dropped. -/
theorem slowest_of_tie :
    let timings : List Timing := [⟨"a", .ofSeconds 3⟩, ⟨"b", .ofSeconds 1⟩, ⟨"c", .ofSeconds 2⟩, ⟨"d", .ofSeconds 2⟩]
    let other : List Timing := [⟨"d", .ofSeconds 2⟩, ⟨"a", .ofSeconds 3⟩, ⟨"b", .ofSeconds 1⟩, ⟨"c", .ofSeconds 2⟩]
    (other.Perm timings ∧
      ((empty 2).insertAll timings).toList = [⟨"a", .ofSeconds 3⟩, ⟨"c", .ofSeconds 2⟩] ∧
      ((empty 2).insertAll other).toList = [⟨"a", .ofSeconds 3⟩, ⟨"d", .ofSeconds 2⟩] ∧
      ((empty 2).insertAll other).toList.map (·.elapsed) = ((empty 2).insertAll timings).toList.map (·.elapsed)) ∧
    ∃ p f, Pool.create ⟨1, 1, Settings.minStackSize, 5⟩ = .ok p ∧
      (Floor.opened p).run? (Floor.executeAndDrop (.single 0 "a" .plain) (.single 1 "b" .plain)
        (.success (.ofSeconds 1))) = some f ∧
      f.pool.completions.map Completed.timing = [⟨"a", .ofSeconds 1⟩] ∧
      Slowest 5 [⟨"a", .ofSeconds 1⟩] f.pool.slowest.toList := by
  intro timings other
  have hperm : other.Perm timings := by decide
  have hkept : ((empty 2).insertAll timings).entries = [⟨"a", .ofSeconds 3⟩, ⟨"c", .ofSeconds 2⟩] := by decide
  have hkept' : ((empty 2).insertAll other).entries = [⟨"d", .ofSeconds 2⟩, ⟨"a", .ofSeconds 3⟩] := by decide
  have hshown : ((empty 2).insertAll timings).toList = [⟨"a", .ofSeconds 3⟩, ⟨"c", .ofSeconds 2⟩] := by
    rw [toList, hkept]
    exact List.mergeSort_of_pairwise (by decide)
  have hshown' : ((empty 2).insertAll other).toList = [⟨"a", .ofSeconds 3⟩, ⟨"d", .ofSeconds 2⟩] := by
    rw [toList, hkept']
    simp +decide [List.mergeSort]
  refine ⟨⟨hperm, hshown, hshown', (slowest_insertAll 2 timings).2.1 other hperm⟩, ?_⟩
  obtain ⟨p, hp⟩ : ∃ p, Pool.create ⟨1, 1, Settings.minStackSize, 5⟩ = .ok p := ⟨_, rfl⟩
  obtain ⟨f, hf, hc⟩ : ∃ f, (Floor.opened p).run? (Floor.executeAndDrop (.single 0 "a" .plain)
      (.single 1 "b" .plain) (.success (.ofSeconds 1))) = some f ∧
      f.pool.completions.map Completed.timing = [⟨"a", .ofSeconds 1⟩] := by
    cases hp
    exact ⟨_, rfl, rfl⟩
  have hslowest := (slowest_insertAll 2 timings).2.2 _ p _ f hp hf
  rw [hc] at hslowest
  exact ⟨p, f, hp, hf, hc, hslowest⟩

end Ranking
end BatchJob.Worker
