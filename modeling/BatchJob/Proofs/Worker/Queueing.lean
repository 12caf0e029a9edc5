import BatchJob.Proofs.Worker.Floor
import BatchJob.Proofs.Worker.Frame

/-! Somebody who waits for room in the backlog of a worker pool. As long as the wait lasts, nothing comes into the
backlog; so it gets shorter with each of its tasks that completes. -/
namespace BatchJob.Worker.Pool

variable {p q : Pool} {t t' : Task} {journal : List Entry}

theorem Sound.pending_of_queue (h : p.Sound journal) (ht : t ∈ p.queue) :
    p.submissions[t.serial]? = some ⟨t.unit, .pending⟩ := by
  refine h.run.balanced.pending_of_waiting ?_
  simp only [queue, List.mem_append] at ht
  simp only [ledger, Multiset.mem_add, Multiset.mem_coe]
  exact Or.inl ht

theorem Sound.nodup_queue (h : p.Sound journal) : p.queue.Nodup := by
  have hall := h.run.balanced.tasks.nodup
  simp only [ledger, Multiset.coe_add, Multiset.coe_nodup, List.append_assoc] at hall
  rw [← List.append_assoc] at hall
  exact hall.of_append_left

theorem Sound.eq_of_queue (h : p.Sound journal) (ht : t ∈ p.queue) (ht' : t' ∈ p.queue)
    (hs : t.serial = t'.serial) : t = t' := by
  have hpending := h.pending_of_queue ht
  rw [hs, h.pending_of_queue ht'] at hpending
  cases t
  cases t'
  simp_all

theorem Sound.not_mem_backlog (h : p.Sound journal) (hb : p.isBlocked t.serial = true) : t ∉ p.backlog := by
  intro ht
  obtain ⟨t', ht', hs, -⟩ := find?_isBlocked hb
  have hqueue : t ∈ p.queue := List.mem_append_right _ ht
  obtain rfl := h.eq_of_queue (List.mem_append_left _ ht') hqueue hs
  exact List.disjoint_of_nodup_append h.nodup_queue ht' ht

theorem Sound.isAccepted_of_backlog (h : p.Sound journal) (ht : t ∈ p.backlog) : p.isAccepted t.serial = true := by
  have hpending := h.pending_of_queue (List.mem_append_right _ ht)
  have hlt := (List.getElem?_eq_some_iff.mp hpending).1
  have hblocked : p.isBlocked t.serial = false := by
    by_contra hb
    exact h.not_mem_backlog (by simpa using hb) ht
  simp [isAccepted, hlt, hblocked, reply_of_getElem? hpending]

theorem Sound.ne_of_completed (h : p.Sound journal) {done : Completed} (hd : done ∈ p.completions) (ht : t ∈ p.queue) :
    t.serial ≠ done.task.serial := by
  intro hs
  have hnone := List.filter_eq_nil_iff.mp (h.filter_completions_of_pending (h.pending_of_queue ht)) done hd
  simp [hs] at hnone

/-- While the only one who waits for room still waits, a task of the backlog that completes makes this shorter. -/
theorem length_backlog_lt (hq : q.Sound journal)
    (hsub : ∀ t ∈ q.queue, t ∈ p.queue) {serial : Nat} (halone : ∀ t ∈ p.blocked, t.serial = serial)
    (hwaits : q.isBlocked serial = true) (ht : t ∈ p.backlog) {done : Completed} (hd : done ∈ q.completions)
    (hs : done.task.serial = t.serial) : q.backlog.length < p.backlog.length := by
  have hstays : ∀ t' ∈ q.backlog, t' ∈ p.backlog := by
    intro t' ht'
    rcases List.mem_append.mp (hsub t' (List.mem_append_right _ ht')) with hb | hl
    · rw [← halone t' hb] at hwaits
      exact absurd ht' (hq.not_mem_backlog hwaits)
    · exact hl
  have hgone : t ∉ q.backlog := fun ht' =>
    hq.ne_of_completed hd (List.mem_append_right _ ht') hs.symm
  have hnodup : (t :: q.backlog).Nodup :=
    List.nodup_cons.mpr ⟨hgone, (List.nodup_append.mp hq.nodup_queue).2.1⟩
  have hlen := (hnodup.subperm (List.cons_subset.mpr ⟨ht, hstays⟩)).length_le
  rwa [List.length_cons] at hlen

theorem isBlocked_of_subset (h : ∀ t ∈ q.blocked, t ∈ p.blocked) {serial : Nat} (hb : q.isBlocked serial = true) :
    p.isBlocked serial = true := by
  obtain ⟨t, ht, hs⟩ := List.any_eq_true.mp hb
  exact List.any_eq_true.mpr ⟨t, h t ht, hs⟩

end BatchJob.Worker.Pool
