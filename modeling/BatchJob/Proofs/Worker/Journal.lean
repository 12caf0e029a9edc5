import BatchJob.Proofs.Worker.Ledger
import Mathlib.Data.Multiset.UnionInter

/-! A journal of everything that happened to the submissions of a worker pool, oldest first. Its entries
lead from blank accounts to those of the pool, and it tells for each submission the same story as they. -/
namespace BatchJob.Worker
open Work

def starts (journal : List Entry) : List Task :=
  journal.filterMap fun
    | .started t => some t
    | _ => none

def finishes (journal : List Entry) : List Completed :=
  journal.filterMap fun
    | .finished t o => some ⟨t, o⟩
    | _ => none

def answers (journal : List Entry) : List (Nat × Except PoolError Outcome) :=
  journal.filterMap fun
    | .told serial answer => some (serial, answer)
    | _ => none

def firstAnswer (journal : List Entry) (serial : Nat) : Option (Except PoolError Outcome) :=
  (answers journal).lookup serial

@[simp] theorem starts_append (j k : List Entry) : starts (j ++ k) = starts j ++ starts k := by
  simp [starts]

@[simp] theorem finishes_append (j k : List Entry) :
    finishes (j ++ k) = finishes j ++ finishes k := by simp [finishes]

@[simp] theorem answers_append (j k : List Entry) : answers (j ++ k) = answers j ++ answers k := by
  simp [answers]

theorem firstAnswer_snoc (j : List Entry) (e : Entry) (i : Nat) :
    firstAnswer (j ++ [e]) i = (firstAnswer j i).or ((answers [e]).lookup i) := by
  simp [firstAnswer, List.lookup_append]

theorem firstAnswer_told (j : List Entry) (i : Nat) (answer : Except PoolError Outcome) (k : Nat) :
    firstAnswer (j ++ [.told i answer]) k =
      if i = k then (firstAnswer j k).or (some answer) else firstAnswer j k := by
  by_cases hk : i = k
  · subst hk
    simp [firstAnswer_snoc, answers]
  · have hne : (k == i) = false := by simpa using fun he => hk he.symm
    simp [firstAnswer_snoc, answers, hk, List.lookup_cons, hne]

namespace Ledger

/-- The entries can be made one after the other, and then the accounts are `l`. -/
inductive Run : List Entry → Ledger → Prop
  | blank : Run [] blank
  | snoc {journal : List Entry} {l l' : Ledger} {e : Entry} (h : Run journal l) (hs : Step l e l') :
    Run (journal ++ [e]) l'

variable {journal : List Entry} {l l' : Ledger} {e : Entry}

theorem Run.balanced (h : Run journal l) : l.Balanced := by
  induction h with
  | blank => exact balanced_blank
  | snoc _ hs ih => exact hs.balanced ih

/-- The accounts after an act that makes an entry or none. -/
inductive Follows (l : Ledger) : Option Entry → Ledger → Prop
  | quiet : Follows l none l
  | entry {e : Entry} {l' : Ledger} (h : Step l e l') : Follows l (some e) l'

theorem Run.follows {o : Option Entry} (h : Run journal l) (hf : Follows l o l') :
    Run (journal ++ o.toList) l' := by
  cases hf with
  | quiet => simpa using h
  | entry hs => exact h.snoc hs

theorem Run.starts_eq (h : Run journal l) :
    (starts journal : Multiset Task) = l.running + (l.completions.map (·.task) : List Task) := by
  induction h with
  | blank => rfl
  | snoc _ hs ih =>
    rw [starts_append, ← Multiset.coe_add, ih]
    cases hs with
    | @start t _ hw =>
      have he : (starts [.started t] : Multiset Task) = {t} := rfl
      rw [he, Multiset.add_comm, Multiset.singleton_add, Multiset.cons_add]
    | @finish t rest hr o =>
      have he : (starts [.finished t o] : Multiset Task) = 0 := rfl
      rw [he, hr, List.map_append, ← Multiset.coe_add, Multiset.cons_add, Multiset.add_zero,
        ← Multiset.add_assoc]
      exact (Multiset.add_comm _ {t}).symm
    | _ => simp [starts]

theorem Run.completions_eq (h : Run journal l) : l.completions = finishes journal := by
  induction h with
  | blank => rfl
  | snoc _ hs ih =>
    rw [finishes_append, ← ih]
    cases hs <;> simp [finishes]

theorem Run.mem_starts (h : Run journal l) {t : Task} (ht : t ∈ starts journal) :
    (t ∈ l.running ∧ l.submissions[t.serial]? = some ⟨t.unit, .pending⟩) ∨
      ∃ o, ⟨t, o⟩ ∈ l.completions ∧
        (l.submissions[t.serial]? = some ⟨t.unit, .answered o⟩ ∨
          l.submissions[t.serial]? = some ⟨t.unit, .fetched o⟩) := by
  have hm : t ∈ (starts journal : Multiset Task) := Multiset.mem_coe.mpr ht
  rw [h.starts_eq, Multiset.mem_add, Multiset.mem_coe, List.mem_map] at hm
  rcases hm with hr | ⟨c, hc, rfl⟩
  · exact Or.inl ⟨hr, h.balanced.pending_of_running hr⟩
  · exact Or.inr ⟨c.outcome, hc, (h.balanced.completed.mem_iff c).mp hc⟩

theorem Run.unit_of_mem_starts (h : Run journal l) {t : Task} (ht : t ∈ starts journal) :
    (l.submissions[t.serial]?).map (·.unit) = some t.unit := by
  rcases h.mem_starts ht with ⟨_, hs⟩ | ⟨o, _, hs | hs⟩ <;> simp [hs]

theorem Closed.eq_of_serial {completions : List Completed} {submissions : List Submission}
    (h : Closed completions submissions) {c d : Completed} (hc : c ∈ completions)
    (hd : d ∈ completions) (hs : c.task.serial = d.task.serial) : c = d := by
  have h1 := (h.mem_iff c).mp hc
  have h2 := (h.mem_iff d).mp hd
  obtain ⟨⟨serial, unit⟩, outcome⟩ := c
  obtain ⟨⟨serial', unit'⟩, outcome'⟩ := d
  simp only at hs h1 h2
  subst hs
  rcases h1 with h1 | h1 <;> rcases h2 with h2 | h2 <;> rw [h1] at h2 <;> simp_all

theorem Closed.filter_eq {completions : List Completed} {submissions : List Submission}
    (h : Closed completions submissions) {c : Completed} (hc : c ∈ completions) :
    completions.filter (·.task.serial = c.task.serial) = [c] := by
  have hall : ∀ d ∈ completions.filter (·.task.serial = c.task.serial), d = c := by
    intro d hd
    obtain ⟨hm, hs⟩ := List.mem_filter.mp hd
    exact h.eq_of_serial hm hc (by simpa using hs)
  have hmem : c ∈ completions.filter (·.task.serial = c.task.serial) :=
    List.mem_filter.mpr ⟨hc, by simp⟩
  have hn : (completions.filter (·.task.serial = c.task.serial)).Nodup := h.nodup.filter _
  cases hf : completions.filter (·.task.serial = c.task.serial) with
  | nil => simp [hf] at hmem
  | cons d rest =>
    rw [hf] at hall hn
    obtain rfl := hall d (List.mem_cons_self ..)
    cases rest with
    | nil => rfl
    | cons d' rest =>
      obtain rfl := hall d' (by simp)
      simp at hn

theorem Closed.nodup_tasks {completions : List Completed} {submissions : List Submission}
    (h : Closed completions submissions) : (completions.map (·.task)).Nodup :=
  h.nodup.map_on fun c hc d hd he => h.eq_of_serial hc hd (by rw [he])

theorem Run.starts_nodup (h : Run journal l) : ((starts journal).map (·.serial)).Nodup := by
  have hb := h.balanced
  have hrunning : l.running.Nodup := (Multiset.nodup_add.mp hb.tasks.nodup).2.1
  have hapart : ∀ t ∈ l.running, ∀ c ∈ l.completions, t.serial ≠ c.task.serial := by
    intro t ht c hc he
    have h1 := hb.pending_of_running ht
    have h2 := (hb.completed.mem_iff c).mp hc
    rw [← he, h1] at h2
    simp at h2
  have hall : (l.running + (l.completions.map (·.task) : List Task)).Nodup := by
    refine Multiset.nodup_add.mpr ⟨hrunning, Multiset.coe_nodup.mpr hb.completed.nodup_tasks, ?_⟩
    refine Multiset.disjoint_left.mpr fun {t} ht hm => ?_
    obtain ⟨c, hc, rfl⟩ := List.mem_map.mp (Multiset.mem_coe.mp hm)
    exact hapart _ ht c hc rfl
  rw [← h.starts_eq, Multiset.coe_nodup] at hall
  refine hall.map_on fun t ht t' ht' he => ?_
  have h1 := h.unit_of_mem_starts ht
  rw [he, h.unit_of_mem_starts ht', Option.some.injEq] at h1
  cases t
  cases t'
  simp_all

/-- The first answer is what became of the submission, and nobody fetches an outcome but by asking. -/
structure Told (journal : List Entry) (l : Ledger) : Prop where
  ok : ∀ i o, firstAnswer journal i = some (.ok o) →
    ∃ u, l.submissions[i]? = some ⟨u, .fetched o⟩
  error : ∀ i e, firstAnswer journal i = some (.error e) →
    e = .cancelled ∧ ∃ u, l.submissions[i]? = some ⟨u, .dropped⟩
  fetched : ∀ i u o, l.submissions[i]? = some ⟨u, .fetched o⟩ → firstAnswer journal i = some (.ok o)

theorem Told.of_getElem? (h : Told journal l) (he : answers [e] = [])
    (hfetched : ∀ (i : Nat) (u : WorkUnit) (o : Outcome), l.submissions[i]? = some ⟨u, .fetched o⟩ ↔
      l'.submissions[i]? = some ⟨u, .fetched o⟩)
    (hdropped : ∀ (i : Nat) (u : WorkUnit), l.submissions[i]? = some ⟨u, .dropped⟩ →
      l'.submissions[i]? = some ⟨u, .dropped⟩) : Told (journal ++ [e]) l' := by
  have hfirst : ∀ i, firstAnswer (journal ++ [e]) i = firstAnswer journal i := by
    intro i
    simp [firstAnswer_snoc, he]
  constructor
  · intro i o hi
    rw [hfirst] at hi
    obtain ⟨u, hu⟩ := h.ok i o hi
    exact ⟨u, (hfetched i u o).mp hu⟩
  · intro i e' hi
    rw [hfirst] at hi
    obtain ⟨hc, u, hu⟩ := h.error i e' hi
    exact ⟨hc, u, hdropped i u hu⟩
  · intro i u o hi
    rw [hfirst]
    exact h.fetched i u o ((hfetched i u o).mpr hi)

theorem Told.settle (h : Told journal l) (he : answers [e] = []) {t : Task}
    (ht : l.submissions[t.serial]? = some ⟨t.unit, .pending⟩) {r : Reply}
    (hr : ∀ o, r ≠ .fetched o) (hs : l'.submissions = setReplyAt l.submissions t.serial r) :
    Told (journal ++ [e]) l' := by
  refine h.of_getElem? he (fun i u o => ?_) (fun i u hi => ?_)
  · rw [hs]
    by_cases hi : t.serial = i
    · subst hi
      simp [getElem?_setReplyAt_self ht, ht, hr o]
    · rw [getElem?_setReplyAt_of_ne hi]
  · rw [hs]
    by_cases he : t.serial = i
    · subst he
      simp [ht] at hi
    · rw [getElem?_setReplyAt_of_ne he, hi]

theorem Told.firstAnswer_eq_none (h : Told journal l) {i : Nat} {u : WorkUnit} {o : Outcome}
    (hi : l.submissions[i]? = some ⟨u, .answered o⟩) : firstAnswer journal i = none := by
  cases hf : firstAnswer journal i with
  | none => rfl
  | some answer =>
    cases answer with
    | ok o' =>
      obtain ⟨v, hv⟩ := h.ok i o' hf
      simp [hi] at hv
    | error e =>
      obtain ⟨-, v, hv⟩ := h.error i e hf
      simp [hi] at hv

theorem Told.tell (h : Told journal l) {i : Nat} {u : WorkUnit} {o : Outcome}
    (hi : l.submissions[i]? = some ⟨u, .answered o⟩)
    (hs : l'.submissions = setReplyAt l.submissions i (.fetched o)) :
    Told (journal ++ [.told i (.ok o)]) l' := by
  have hself : firstAnswer (journal ++ [.told i (.ok o)]) i = some (.ok o) := by
    rw [firstAnswer_told, if_pos rfl, h.firstAnswer_eq_none hi]
    rfl
  have hother : ∀ j, i ≠ j → firstAnswer (journal ++ [.told i (.ok o)]) j = firstAnswer journal j ∧
      l'.submissions[j]? = l.submissions[j]? := fun j hj =>
    ⟨by rw [firstAnswer_told, if_neg hj], by rw [hs, getElem?_setReplyAt_of_ne hj]⟩
  have hnow : l'.submissions[i]? = some ⟨u, .fetched o⟩ := by rw [hs, getElem?_setReplyAt_self hi]
  constructor
  · intro j o' hj
    by_cases he : i = j
    · subst he
      rw [hself] at hj
      cases hj
      exact ⟨u, hnow⟩
    · rw [(hother j he).1] at hj
      rw [(hother j he).2]
      exact h.ok j o' hj
  · intro j e hj
    by_cases he : i = j
    · subst he
      rw [hself] at hj
      cases hj
    · rw [(hother j he).1] at hj
      rw [(hother j he).2]
      exact h.error j e hj
  · intro j v o' hj
    by_cases he : i = j
    · subst he
      rw [hnow] at hj
      cases hj
      exact hself
    · rw [(hother j he).2] at hj
      rw [(hother j he).1]
      exact h.fetched j v o' hj

theorem Told.tellCancelled (h : Told journal l) {i : Nat} {u : WorkUnit} {r : Reply}
    (hi : l.submissions[i]? = some ⟨u, r⟩) (hr : r = .dropped ∨ ∃ o, r = .fetched o) :
    Told (journal ++ [.told i (.error .cancelled)]) l := by
  constructor
  · intro j o hj
    rw [firstAnswer_told] at hj
    split at hj
    · rcases Option.or_eq_some_iff.mp hj with hj | ⟨-, hj⟩
      · exact h.ok j o hj
      · cases hj
    · exact h.ok j o hj
  · intro j e hj
    rw [firstAnswer_told] at hj
    split at hj
    · rename_i he
      subst he
      rcases Option.or_eq_some_iff.mp hj with hj | ⟨hnone, hj⟩
      · exact h.error i e hj
      · cases hj
        refine ⟨rfl, u, ?_⟩
        rcases hr with rfl | ⟨o, rfl⟩
        · exact hi
        · rw [h.fetched i u o hi] at hnone
          cases hnone
    · exact h.error j e hj
  · intro j v o hj
    rw [firstAnswer_told, h.fetched j v o hj]
    split <;> rfl

theorem Run.told (h : Run journal l) : Told journal l := by
  induction h with
  | blank =>
    exact ⟨by simp [firstAnswer, answers], by simp [firstAnswer, answers], by simp [Ledger.blank]⟩
  | @snoc journal l _ _ h hs ih =>
    cases hs with
    | submit u =>
      refine ih.of_getElem? rfl (fun i v o => ?_) (fun i v hi => ?_)
      · rcases lt_trichotomy i l.submissions.length with hi | hi | hi
        · rw [List.getElem?_append_left hi]
        · subst hi
          simp
        · rw [List.getElem?_eq_none (by omega), List.getElem?_eq_none (by simp; omega)]
      · exact List.getElem?_append_left (List.getElem?_eq_some_iff.mp hi).1 ▸ hi
    | @refuse t _ hw =>
      exact ih.settle rfl (h.balanced.pending_of_waiting (t := t) (by simp [hw])) (by simp) rfl
    | @drop t _ hw =>
      exact ih.settle rfl (h.balanced.pending_of_waiting (t := t) (by simp [hw])) (by simp) rfl
    | start => exact ih.of_getElem? rfl (fun _ _ _ => Iff.rfl) (fun _ _ => id)
    | @finish t _ hr o =>
      exact ih.settle rfl (h.balanced.pending_of_running (t := t) (by simp [hr])) (by simp) rfl
    | tell hi => exact ih.tell hi rfl
    | tellCancelled hi hr => exact ih.tellCancelled hi hr

end Ledger
end BatchJob.Worker
