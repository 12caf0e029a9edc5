import BatchJob.Proofs.Job.Batches
import BatchJob.Proofs.Job.Others
import BatchJob.Proofs.Job.Recorded
import BatchJob.Proofs.Queue.Staging
import BatchJob.Proofs.Worker.Single

/-! Feeding the worker pool. What came from the source is at any time in three places: in the batches that
were submitted, in the batch that is being filled, and in the staging queue; and however the rounds of the
machine cut the stream of identifiers, the batches are its parts. -/
namespace BatchJob.Job
open Worker Queue

/-- The submission that waits for room. -/
def Point.waitsFor? : Point → Option Nat
  | .sending _ serial => some serial
  | _ => none

/-- The identifiers `raw` that came so far make the batches `sent` that were submitted, the one that is
being filled, and the `waiting` entries of the queue. -/
structure Feeding (c : Settings) (request : Work.Request) (solo : Prop) (raw : List String)
    (sent : List (List String)) (waiting : List String) (p : Pump) (q : Pool) : Prop where
  orderly : ∃ journal, q.Orderly solo journal
  units_eq : q.units = batches c request sent
  numbered : p.units = sent.length
  queue : p.queue.Holds waiting
  -- Whatever else may come, the parts of all of it begin with the batches.
  split : ∀ more, (p.sourceDone = true → more = []) →
    chunks c.batchSize (identifiers raw ++ more) =
      sent ++ chunks c.batchSize (p.batch ++ waiting ++ more)
  batch_le : p.batch.length ≤ c.batchSize
  received_le : q.received ≤ q.completions.length
  inFlight_eq : p.inFlight + q.received + p.point.waitsFor?.toList.length = q.submissions.length
  refused : ∀ i, q.reply i = .refused → p.point.waitsFor? = some i
  last : ∀ serial, p.point.waitsFor? = some serial → serial + 1 = q.submissions.length
  blocked : ∀ t ∈ q.blocked, p.point.waitsFor? = some t.serial

def Tallied (s : Control.State) (q : Pool) : Prop :=
  s.succeeded + s.failed = ((q.completions.take q.received).map (·.task.unit.items)).sum

/-- What holds of the pool when no more units will be submitted. -/
structure Spent (c : Settings) (request : Work.Request) (solo : Prop) (raw : List String)
    (done : Bool) (q : Pool) : Prop where
  orderly : ∃ journal, q.Orderly solo journal
  units : ∀ more, (done = true → more = []) →
    q.units <+: batches c request (chunks c.batchSize (identifiers raw ++ more))
  refused : ∀ i, q.reply i = .refused → i + 1 = q.submissions.length

/-- Every unit was executed and received. -/
structure Whole (c : Settings) (request : Work.Request) (raw : List String) (q : Pool) : Prop where
  units : q.units = batches c request (chunks c.batchSize (identifiers raw))
  received : q.received = q.submissions.length
  completions : q.completions.length = q.submissions.length
  refused : ∀ i, q.reply i ≠ .refused

variable {σ : Type} {w : Surroundings σ} {c : Settings} {request : Work.Request} {solo : Prop}
variable {raw : List String} {sent : List (List String)} {waiting : List String}
variable {p p' : Pump} {q q' : Pool} {s s' : World σ}

@[simp] theorem length_units (q : Pool) : q.units.length = q.submissions.length := by
  simp [Pool.units]

theorem not_resize_of_others (hs : solo) (r : Resize) : ¬ Others solo (.resize r) := by
  rintro ((⟨_, h⟩ | ⟨_, _, h⟩) | h | h | h | ⟨hmany, -⟩)
  · cases h
  · cases h
  · cases h
  · cases h
  · cases h
  · exact hmany hs

theorem not_announce_of_others (u : WorkUnit) : ¬ Others solo (.announce u) := by
  rintro ((⟨_, h⟩ | ⟨_, _, h⟩) | h | h | h | ⟨-, _, h⟩) <;> cases h

theorem take_eq_of_prefix {α : Type} {xs ys : List α} (h : xs <+: ys) {n : Nat}
    (hn : n ≤ xs.length) : ys.take n = xs.take n := by
  obtain ⟨zs, rfl⟩ := h
  exact List.take_append_of_le_length hn

theorem length_submissions_of_units (h : q'.units = q.units) :
    q'.submissions.length = q.submissions.length := by
  have := congrArg List.length h
  simpa using this

theorem Feeding.serves (h : Feeding c request solo raw sent waiting p q) {journal : List Entry}
    (hs : q'.Orderly solo journal) (hq : q.Serves q') :
    Feeding c request solo raw sent waiting p q' where
  orderly := ⟨journal, hs⟩
  units_eq := hq.units.trans h.units_eq
  numbered := h.numbered
  queue := h.queue
  split := h.split
  batch_le := h.batch_le
  received_le := by
    rw [hq.received]
    exact h.received_le.trans hq.completions.length_le
  inFlight_eq := by rw [hq.received, length_submissions_of_units hq.units, h.inFlight_eq]
  refused i hi := h.refused i ((hq.refused i).mp hi)
  last serial hserial := by rw [length_submissions_of_units hq.units, h.last serial hserial]
  blocked t ht := h.blocked t (hq.blocked t ht)

theorem Spent.serves {done : Bool} (h : Spent c request solo raw done q) {journal : List Entry}
    (hs : q'.Orderly solo journal) (hq : q.Serves q') :
    Spent c request solo raw done q' where
  orderly := ⟨journal, hs⟩
  units more hm := by
    rw [hq.units]
    exact h.units more hm
  refused i hi := by
    rw [length_submissions_of_units hq.units]
    exact h.refused i ((hq.refused i).mp hi)

/-- Nothing is left that could still complete. -/
theorem Whole.serves (h : Whole c request raw q) {journal : List Entry} (hs : q'.Sound journal)
    (hq : q.Serves q') : Whole c request raw q' where
  units := hq.units.trans h.units
  received := by rw [hq.received, length_submissions_of_units hq.units, h.received]
  completions := by
    have hlow := hq.completions.length_le
    have hhigh := hs.length_completions_le
    have hlen := length_submissions_of_units hq.units
    have := h.completions
    omega
  refused i hi := h.refused i ((hq.refused i).mp hi)

theorem leads_others {journal k : List Entry} (hs : q.Orderly solo journal)
    (hq : Pool.Leads (Others solo) q k q') : q'.Orderly solo (journal ++ k) ∧ q.Serves q' :=
  ⟨hs.leads (fun hsolo => not_resize_of_others hsolo) not_announce_of_others hq,
    hs.sound.serves_leads (fun _ => internal_of_others) hq⟩

theorem Tallied.serves {t t' : Control.State} (h : Tallied t q)
    (hr : q.received ≤ q.completions.length) (hq : q.Serves q')
    (hsucceeded : t'.succeeded = t.succeeded) (hfailed : t'.failed = t.failed) : Tallied t' q' := by
  rw [Tallied, hsucceeded, hfailed, hq.received, take_eq_of_prefix hq.completions hr]
  exact h

/-- The machine has a pool to feed, and the job has not ended. -/
structure Fed (c : Settings) (request : Work.Request) (solo : Prop) (raw : List String) (p : Pump)
    (s : World σ) : Prop where
  feeding : ∃ q sent waiting, s.panel.pool = some q ∧
    Feeding c request solo raw sent waiting p q ∧ Tallied s.state q
  phase : s.state.phase.isFinal = false

/-- Whatever the panel has for a pool, it is spent and nobody waits for room there; and after a completed run
its work was done as a whole, or there never was any. -/
structure Ended (c : Settings) (request : Work.Request) (solo : Prop) (raw : List String)
    (done : Bool) (result : Except JobError Ending) (s : World σ) : Prop where
  pool : ∀ q, s.panel.pool = some q → Spent c request solo raw done q
  blocked : ∀ q, s.panel.pool = some q → q.blocked = []
  whole : result = .ok .completed → (s.state.total = 0 ∧ s.panel.pool = none) ∨
    done = true ∧ ∃ q, s.panel.pool = some q ∧ Whole c request raw q ∧
      s.state.succeeded + s.state.failed = (identifiers raw).length

theorem Fed.stirred (h : Fed c request solo raw p s) (hs : Stirred solo s.panel s'.panel) :
    Fed c request solo raw p s' := by
  obtain ⟨⟨q, sent, waiting, hq, hf, ht⟩, hp⟩ := h
  obtain ⟨q', k, hq', hl⟩ := hs.pool q hq
  obtain ⟨journal, hj⟩ := hf.orderly
  obtain ⟨horderly, hserves⟩ := leads_others hj hl
  refine ⟨⟨q', sent, waiting, hq', hf.serves horderly hserves,
    ht.serves hf.received_le hserves hs.succeeded hs.failed⟩, ?_⟩
  rw [World.state, hs.isFinal_eq]
  exact hp

theorem Ended.follow {done : Bool} {result : Except JobError Ending}
    (h : Ended c request solo raw done result s) (hnone : s.panel.pool = none → s'.panel.pool = none)
    (hsome : ∀ q, s.panel.pool = some q → ∃ q' journal, s'.panel.pool = some q' ∧
      q'.Orderly solo journal ∧ q.Serves q')
    (hsucceeded : s'.state.succeeded = s.state.succeeded) (hfailed : s'.state.failed = s.state.failed)
    (htotal : s'.state.total = s.state.total) : Ended c request solo raw done result s' := by
  have hback : ∀ q', s'.panel.pool = some q' →
      ∃ q journal, s.panel.pool = some q ∧ q'.Orderly solo journal ∧ q.Serves q' := by
    intro q' hq'
    cases hq : s.panel.pool with
    | none =>
      rw [hnone hq] at hq'
      cases hq'
    | some q =>
      obtain ⟨q₁, journal, hq₁, horderly, hserves⟩ := hsome q hq
      rw [hq'] at hq₁
      cases hq₁
      exact ⟨q, journal, rfl, horderly, hserves⟩
  constructor
  · intro q' hq'
    obtain ⟨q, journal, hq, horderly, hserves⟩ := hback q' hq'
    exact (h.pool q hq).serves horderly hserves
  · intro q' hq'
    obtain ⟨q, journal, hq, -, hserves⟩ := hback q' hq'
    exact hserves.blocked_nil (h.blocked q hq)
  · intro hr
    rcases h.whole hr with ⟨ht, hnopool⟩ | ⟨hd, q, hq, hw, hsum⟩
    · exact Or.inl ⟨htotal.trans ht, hnone hnopool⟩
    · right
      obtain ⟨q', journal, hq', horderly, hserves⟩ := hsome q hq
      refine ⟨hd, q', hq', hw.serves horderly.sound hserves, ?_⟩
      rw [hsucceeded, hfailed]
      exact hsum

theorem Ended.stirred {done : Bool} {result : Except JobError Ending}
    (h : Ended c request solo raw done result s) (hs : Stirred solo s.panel s'.panel) :
    Ended c request solo raw done result s' := by
  refine h.follow hs.noPool (fun q hq => ?_) hs.succeeded hs.failed hs.total
  obtain ⟨q', k, hq', hl⟩ := hs.pool q hq
  obtain ⟨journal, hj⟩ := (h.pool q hq).orderly
  obtain ⟨horderly, hserves⟩ := leads_others hj hl
  exact ⟨q', journal ++ k, hq', horderly, hserves⟩

theorem Feeding.spent (h : Feeding c request solo raw sent waiting p q) :
    Spent c request solo raw p.sourceDone q where
  orderly := h.orderly
  units more hm := by
    rw [h.units_eq, h.split more hm]
    exact batches_append _ _
  refused i hi := h.last i (h.refused i hi)

theorem Feeding.blocked_nil (h : Feeding c request solo raw sent waiting p q)
    (hp : p.point.waitsFor? = none) : q.blocked = [] := by
  refine List.eq_nil_iff_forall_not_mem.mpr fun t ht => ?_
  have hwaits := h.blocked t ht
  rw [hp] at hwaits
  cases hwaits

theorem Feeding.blocked_nil_of_refused (h : Feeding c request solo raw sent waiting p q) {serial : Nat}
    (hp : p.point.waitsFor? = some serial) (hr : q.reply serial = .refused) : q.blocked = [] := by
  refine List.eq_nil_iff_forall_not_mem.mpr fun t ht => ?_
  obtain ⟨journal, hj⟩ := h.orderly
  have hserial := h.blocked t ht
  rw [hp, Option.some.injEq] at hserial
  have hpending := hj.sound.run.balanced.pending_of_waiting (t := t) (by simp [Pool.ledger, ht])
  obtain ⟨u, hu⟩ := Pool.reply_eq_refused_iff.mp hr
  rw [hserial] at hu
  cases hpending.symm.trans hu

theorem Feeding.spent_pull (h : Feeding c request solo raw sent waiting p q)
    (hd : p.sourceDone = false) (x : String) : Spent c request solo (raw ++ [x]) false q where
  orderly := h.orderly
  units more _ := by
    rw [identifiers_append, List.append_assoc, h.units_eq,
      h.split _ fun hdone => by simp [hd] at hdone]
    exact batches_append _ _
  refused i hi := h.last i (h.refused i hi)

end BatchJob.Job
