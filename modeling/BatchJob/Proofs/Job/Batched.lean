import BatchJob.Job.Draft
import BatchJob.Proofs.Job.Course
import BatchJob.Proofs.Job.Turns

/-! The units of a job are the batches of its source. Whatever queue it has between the two, however long this
and the backlog may be, and whoever acts when: none is lost, doubled or closed too early. -/
namespace BatchJob.Job
open Worker Queue

/-- What becomes of a job, by the record of what its source gave. Whatever that may still yield, the units are the first
of its batches; a job that completed executed all batches, each once, and counted all identifiers; and one worker alone
starts the units one at a time and in their order. -/
structure Batched {σ : Type} (c : Settings) (request : Work.Request) (solo : Prop) (log : List Call)
    (s : World σ) : Prop where
  accepted : ∀ q, s.panel.pool = some q → ∀ ids, pulled log <+: ids → (exhausted log → ids = pulled log) →
    q.accepted <+: batches c request (chunks c.batchSize (identifiers ids))
  completed : s.state.phase = .completed → s.state.total ≠ 0 → exhausted log ∧
    ∃ q, s.panel.pool = some q ∧
      q.accepted = batches c request (chunks c.batchSize (identifiers (pulled log))) ∧
      (∀ i u, q.accepted[i]? = some u →
        ∃ o, q.completions.filter (·.task.serial = i) = [⟨⟨i, u⟩, o⟩]) ∧
      q.completions.length = q.accepted.length ∧
      s.state.succeeded + s.state.failed = (identifiers (pulled log)).length
  inOrder : solo → ∀ q, s.panel.pool = some q → q.atWork.length ≤ 1 ∧
    ∃ journal, q.Sound journal ∧ starts journal = q.started ∧
      ((starts journal).map (·.unit.id)).Pairwise (· < ·)

variable {σ : Type} {w : Surroundings σ} {c : Ready} {request : Work.Request} {solo : Prop}
variable {raw : List String} {log : List Call} {p : Pump} {r : Run} {q : Pool} {s : World σ} {done : Bool}

theorem exhausted_asks (hp : p.point = .staging) (hmore : ¬ p.isStaged) : exhausted (p.asks w s) ↔
    (w.next s).1 = .ok none := by
  rw [Pump.asks, if_pos ⟨hp, hmore⟩]
  simp [exhausted, eq_comm]

theorem not_exhausted_asks (h : p.point ≠ .staging ∨ p.isStaged) : ¬ exhausted (p.asks w s) := by
  have hnone : p.asks w s = [] := if_neg fun hc => h.elim (fun hp => hp hc.1) hc.2
  simp [exhausted, hnone]

theorem Ripe.sourceDone_eq {c : Settings} {p₁ : Pump} {s₁ : World σ} (h : Ripe w c p s p₁ s₁) :
    p₁.sourceDone = p.sourceDone := by
  cases h <;> rfl

theorem sourceDone_step (w : Surroundings σ) (c : Settings) (request : Work.Request) (p : Pump) (s : World σ) :
    (p.step w c request s).2.1.sourceDone = true ↔ p.sourceDone = true ∨ exhausted (p.asks w s) := by
  have hturns := turns_step w c request p s
  have hsame : ∀ {p' : Pump}, p'.sourceDone = p.sourceDone → ¬ exhausted (p.asks w s) →
      (p'.sourceDone = true ↔ p.sourceDone = true ∨ exhausted (p.asks w s)) := fun hd hno => by simp [hd, hno]
  have hnext {answer s'} (hp : p.point = .staging) (hmore : ¬ p.isStaged) (hn : w.next s = (answer, s'))
      (ha : answer ≠ .ok none) : ¬ exhausted (p.asks w s) := by
    rw [exhausted_asks hp hmore, hn]
    exact ha
  cases hstep : p.step w c request s with
  | mk result rest =>
    obtain ⟨p', s'⟩ := rest
    rw [hstep] at hturns
    simp only
    cases result with
    | none =>
      rcases hturns with ha | hi
      · cases ha with
        | receive hp _ => exact hsame rfl (not_exhausted_asks (Or.inl (by rcases hp with hp | hp <;> simp [hp])))
        | exhaust hp hmore hn => simp [exhausted_asks hp hmore, hn]
        | skip hp hmore hn _ | stage hp hmore hn _ _ => exact hsame rfl (hnext hp hmore hn (by simp))
        | take hp _ | enter hp _ _ => exact hsame rfl (not_exhausted_asks (Or.inl (by simp [hp])))
        | submit hp hripe _ _ | block hp hripe _ _ =>
          exact hsame hripe.sourceDone_eq (not_exhausted_asks (Or.inl (by simp [hp])))
      · cases hi with
        | staged hp hover => exact hsame rfl (not_exhausted_asks (Or.inr hover))
        | begin hp _ _ | limited hp _ | drained hp _ _ | hold hp _ _ | rest hp _ _ | again hp _ _ | wake hp _ =>
          exact hsame rfl (not_exhausted_asks (Or.inl (by simp [hp])))
    | some result =>
      cases hturns with
      | source hp hmore hn | offer hp hmore hn _ _ | overfull hp hmore hn _ =>
        exact hsame rfl (hnext hp hmore hn (by simp))
      | unadmitted hp hripe _ => exact hsame hripe.sourceDone_eq (not_exhausted_asks (Or.inl (by simp [hp])))
      | failed hp _ _ => exact hsame rfl (not_exhausted_asks (Or.inl (by rcases hp with hp | hp <;> simp [hp])))
      | stopped hp | poll hp _ | refused hp _ | completed hp _ | closed hp _ _ =>
        exact hsame rfl (not_exhausted_asks (Or.inl (by simp [hp])))

theorem pump_step_of_ne (h : r.leg ≠ .pumping) : (r.step w c s).1.pump = r.pump := by
  rw [Run.step]
  generalize w.meanwhile r.moment s = s
  cases hl : r.leg with
  | pumping => exact absurd hl h
  | opening =>
    simp only [Run.openSource]
    split <;> rfl
  | hooking stage next =>
    simp only [Run.runHook]
    split
    · rfl
    · split <;> rfl
  | staffing =>
    simp only [Run.staff]
    split
    · rfl
    · split <;> rfl
  | dismissing result =>
    simp only [Run.dismiss]
    split <;> rfl
  | emptying result =>
    simp only [Run.empty]
    split <;> rfl
  | shutting result =>
    simp only [Run.shut]
    split <;> rfl
  | _ => rfl

theorem not_exhausted_calls (h : r.leg ≠ .pumping) (s : World σ) : ¬ exhausted (r.calls w s) := by
  rw [Run.calls]
  cases hl : r.leg with
  | pumping => exact absurd hl h
  | opening =>
    simp only
    split <;> simp [exhausted]
  | hooking stage next => simp [exhausted]
  | _ => simp [exhausted]

theorem Run.sourceDone_step (w : Surroundings σ) (c : Ready) (r : Run) (s : World σ) :
    (r.step w c s).1.pump.sourceDone = true ↔
      r.pump.sourceDone = true ∨ exhausted (r.calls w (w.meanwhile r.moment s)) := by
  by_cases hl : r.leg = .pumping
  · have hsame : (r.step w c s).1.pump = (r.pump.step w c.settings r.request (w.meanwhile r.moment s)).2.1 := by
      simp only [Run.step, hl, Run.pumpOn]
      split <;> rename_i heq <;> rw [heq]
    have hcalls : r.calls w (w.meanwhile r.moment s) = r.pump.asks w (w.meanwhile r.moment s) := by
      rw [Run.calls, hl]
    rw [hsame, hcalls]
    exact Job.sourceDone_step w c.settings r.request r.pump _
  · rw [pump_step_of_ne hl]
    exact (or_iff_left (not_exhausted_calls hl _)).symm

theorem Run.sourceDone_steps (w : Surroundings σ) (c : Ready) (n : Nat)
    (h : r.pump.sourceDone = true ↔ exhausted log) : (Run.steps w c n r s).1.pump.sourceDone = true ↔
      exhausted (Run.steps w.recorded c n r (s.noting log)).2.log := by
  induction n generalizing r s log with
  | zero => exact h
  | succ n ih =>
    by_cases hover : r.isOver
    · rw [Run.steps_of_isOver hover, Run.steps_of_isOver hover]
      exact h
    · rw [Run.steps_succ hover, Run.steps_succ hover, Run.step_recorded]
      exact ih (by rw [Run.sourceDone_step, h, exhausted_append])

theorem Spent.accepted (h : Spent c.settings request solo raw done q) {ids : List String}
    (hids : raw <+: ids) (hdone : done = true → ids = raw) :
    q.accepted <+: batches c.settings request (chunks c.settings.batchSize (identifiers ids)) := by
  obtain ⟨rest, rfl⟩ := hids
  have hunits := h.units (identifiers rest) fun hd => by
    have hrest : rest = [] := by simpa using hdone hd
    rw [hrest]
    rfl
  rw [identifiers_append]
  exact (Pool.accepted_prefix h.refused).trans hunits

theorem Spent.id_eq (h : Spent c.settings request solo raw done q) {t : Task} (ht : t ∈ q.tasks) :
    t.unit.id = t.serial := by
  have hunit : q.units[t.serial]? = some t.unit := by
    rw [Pool.units, List.getElem?_map]
    exact Pool.mem_tasks.mp ht
  obtain ⟨rest, hrest⟩ := h.units [] fun _ => rfl
  have hlt : t.serial < q.units.length := (List.getElem?_eq_some_iff.mp hunit).1
  have hbatch : (batches c.settings request
      (chunks c.settings.batchSize (identifiers raw ++ [])))[t.serial]? = some t.unit := by
    rw [← hrest, List.getElem?_append_left hlt]
    exact hunit
  exact getElem?_batches hbatch

theorem Spent.inOrder (h : Spent c.settings request solo raw done q) (hs : solo) :
    q.atWork.length ≤ 1 ∧ ∃ journal, q.Sound journal ∧ starts journal = q.started ∧
      ((starts journal).map (·.unit.id)).Pairwise (· < ·) := by
  obtain ⟨journal, hj⟩ := h.orderly
  have hline := hj.inLine hs
  refine ⟨hline.length_atWork, journal, hj.sound, hj.started hs, ?_⟩
  have hids : (starts journal).map (·.unit.id) = (starts journal).map (·.serial) :=
    List.map_congr_left fun t ht =>
      h.id_eq (Pool.mem_tasks.mpr (hj.sound.run.unit_of_mem_starts ht))
  rw [hids, hj.started hs]
  exact hline.ascending.sublist (q.started_sublist.map _)

/-- Each unit completed, and not more than once. -/
theorem Whole.executed (h : Whole c.settings request raw q) {journal : List Entry}
    (hs : q.Sound journal) {i : Nat} {u : WorkUnit} (hu : q.units[i]? = some u) :
    ∃ o, q.completions.filter (·.task.serial = i) = [⟨⟨i, u⟩, o⟩] := by
  have hmem : (⟨i, u⟩ : Task) ∈ q.tasks := by
    rw [Pool.mem_tasks]
    rw [Pool.units, List.getElem?_map] at hu
    exact hu
  have hdone := (hs.perm_tasks h.completions).mem_iff.mpr hmem
  obtain ⟨⟨t, o⟩, hc, ht⟩ := List.mem_map.mp hdone
  have hfilter := hs.run.balanced.completed.filter_eq hc
  simp only at ht
  subst ht
  exact ⟨o, hfilter⟩

theorem Course.batched (h : Course c solo (pulled log) r s) (hdone : r.pump.sourceDone = true ↔ exhausted log) :
    Batched c.settings r.request solo log s := by
  have hspent : ∀ q, s.panel.pool = some q →
      Spent c.settings r.request solo (pulled log) r.pump.sourceDone q := by
    intro q hq
    cases h with
    | early hl hraw hnone =>
      rw [hnone.pool] at hq
      cases hq
    | pumping hl hfed =>
      obtain ⟨⟨q', sent, waiting, hq', hf, -⟩, -⟩ := hfed
      rw [hq] at hq'
      cases hq'
      exact hf.spent
    | late hl hended hphase => exact hended.pool q hq
    | last hl hended hphase => exact hended.pool q hq
  refine ⟨fun q hq ids hids hall => (hspent q hq).accepted hids fun hd => hall (hdone.mp hd), fun hphase htotal => ?_,
    fun hs q hq => (hspent q hq).inOrder hs⟩
  have hopen : s.state.phase.isFinal ≠ false := by rw [hphase]; decide
  cases h with
  | early hl hraw hnone => exact absurd hnone.phase hopen
  | pumping hl hfed => exact absurd hfed.phase hopen
  | late hl hended hnot => exact absurd hnot hopen
  | @last result hl hended hend =>
    have hresult : result = .ok .completed := by
      rw [hphase] at hend
      rcases result with e | (_ | _)
      · cases hend
      · rfl
      · cases hend
    rcases hended.whole hresult with hzero | ⟨hd, q, hq, hwhole, hsum⟩
    · exact absurd hzero.1 htotal
    · obtain ⟨journal, hj⟩ := (hspent q hq).orderly
      have hunits : q.accepted = q.units := Pool.accepted_eq hwhole.refused
      refine ⟨hdone.mp hd, q, hq, hunits.trans hwhole.units, fun i u hu => ?_, ?_, hsum⟩
      · rw [hunits] at hu
        exact hwhole.executed hj.sound hu
      · rw [hunits, length_units]
        exact hwhole.completions

section Built
variable {α β γ : Type} {d : Draft α β γ} {fs : Files} {a : Assembly α β γ}

theorem pos_of_firstZero? {numbers : List (String × Nat)} (h : Settings.firstZero? numbers = none)
    {n : String × Nat} (hn : n ∈ numbers) : 0 < n.2 := by
  have hnone : numbers.find? (fun n => n.2 = 0) = none := Option.map_eq_none_iff.mp h
  have hzero := List.find?_eq_none.mp hnone n hn
  simp only [decide_eq_true_eq] at hzero
  omega

theorem pos_of_settings {settings : BatchJob.Settings} (h : settings.problem? fs = none) :
    (∀ n ∈ [("thread_count", settings.threadCount), ("batch_size", settings.batchSize)] ++ settings.positives,
      0 < n.2) ∧ settings.endpointRemoveAfter ≠ some 0 := by
  simp only [Settings.problem?, Option.orElse_eq_orElse, Option.orElse_eq_or, Option.or_eq_none_iff] at h
  obtain ⟨hcounts, -, hpositives, hremove, -⟩ := h
  refine ⟨fun n hn => ?_, fun hzero => by simp [hzero] at hremove⟩
  rcases List.mem_append.mp hn with hn | hn
  · exact pos_of_firstZero? hcounts hn
  · exact pos_of_firstZero? hpositives hn

theorem exists_of_bind {ε δ η : Type} {x : Except ε δ} {f : δ → Except ε η} {b : η}
    (h : x >>= f = .ok b) : ∃ y, x = .ok y ∧ f y = .ok b := by
  cases x with
  | error e => cases h
  | ok y => exact ⟨y, rfl, h⟩

theorem Draft.problem?_eq_none {found : α × β × Endpoint.Pool} (h : d.parts fs = .ok found) :
    d.settings.problem? fs = none := by
  cases hp : d.settings.problem? fs with
  | none => rfl
  | some problem =>
    rw [Draft.parts] at h
    rw [hp] at h
    cases h

theorem Draft.settings_of_build (h : d.build fs = .ok a) : a.job.settings.problem? fs = none := by
  rw [Draft.build] at h
  obtain ⟨found, hfound, h⟩ := exists_of_bind h
  obtain ⟨queue, hqueue, h⟩ := exists_of_bind h
  cases h
  cases hparts : d.parts fs with
  | error e =>
    rw [hparts] at hfound
    cases hfound
  | ok found' => exact Draft.problem?_eq_none hparts

theorem Draft.queue_of_build (h : d.build fs = .ok a) :
    Staging.build a.job.settings.spillToDisk a.job.settings.spillMaxInMemory a.job.settings.spillDir fs =
      .ok a.job.queue := by
  rw [Draft.build] at h
  obtain ⟨found, -, h⟩ := exists_of_bind h
  obtain ⟨queue, hqueue, h⟩ := exists_of_bind h
  cases h
  rw [staging] at hqueue
  cases hb : Staging.build d.settings.spillToDisk d.settings.spillMaxInMemory d.settings.spillDir fs with
  | error e =>
    rw [hb] at hqueue
    cases hqueue
  | ok queue' =>
    rw [hb] at hqueue
    cases hqueue
    rfl

theorem Draft.of_build (h : d.build fs = .ok a) :
    0 < a.job.settings.batchSize ∧ a.job.queue.Holds [] := by
  have hbatch := (pos_of_settings (Draft.settings_of_build h)).1 ("batch_size", a.job.settings.batchSize) (by simp)
  exact ⟨hbatch, Staging.holds_build (Draft.queue_of_build h)⟩

/-- Of a job that was built, in any surroundings that keep to the panel and to the moves of the workers, with
one worker from beginning to end where `solo` says so: after any number of steps its units are the batches of
what its source yielded, as the record of the same run tells. -/
theorem batched_of_run {σ : Type} (hd : d.build fs = .ok a) {solo : Prop}
    (hone : solo → a.job.settings.threadCount = 1) {w : Surroundings σ} (hw : w.Lawful (Stirred solo))
    {s : World σ} (hs : s.panel = .fresh a.job.settings.threadCount) (n : Nat) :
    ∃ log, a.job.run w.recorded n (s.noting []) = Run.noting (a.job.run w n s) log ∧
      Batched a.job.settings (a.job.run w n s).1.request solo log (a.job.run w n s).2 := by
  obtain ⟨hbatch, hqueue⟩ := Draft.of_build hd
  obtain ⟨log, hlog⟩ := Run.steps_recorded w a.job n (.start a.job.queue) s []
  rw [List.nil_append] at hlog
  have hstart : Course a.job solo (pulled []) (Run.start a.job.queue) s := .start hs hone
  have hcourse := hstart.steps hw hbatch hqueue hone n
  have hfresh : (Run.start a.job.queue).pump.sourceDone = true ↔ exhausted [] := by
    simp [Run.start, Pump.start, exhausted]
  have hdone := Run.sourceDone_steps w a.job n hfresh (s := s)
  rw [hlog] at hcourse hdone
  exact ⟨log, hlog, hcourse.batched hdone⟩

end Built

/-- A source that yields what it has left, and a worker who makes one move before each step. -/
def Surroundings.listed : Surroundings (List String) where
  now _ := .zero
  openSource s := (.ok (), s)
  total s := s.rest.length
  batchRef _ := none
  next s := (.ok s.rest.head?, { s with rest := s.rest.tail })
  closeSource s := s
  hook _ := none
  closeEndpoints s := s
  disk _ := ⟨true, true⟩
  keep _ s := s
  meanwhile _ s := s.onPool (·.advanceFor (fun _ => some (.success .zero)) 1)

theorem lawful_listed (solo : Prop) : Surroundings.listed.Lawful (Stirred solo) where
  openSource s := .refl s.panel
  next s := .refl s.panel
  closeSource s := .refl s.panel
  hook _ _ h := by cases h
  closeEndpoints s := .refl s.panel
  keep _ s := .refl s.panel
  meanwhile _ s := stirred_advanceFor _ 1 s.panel

def Draft.byTwo : Draft Unit Unit Unit :=
  (((Draft.start { Settings.default with batchSize := 2, spillMaxInMemory := 1 }).withSource
    ()).withExecutor ()).withPool ⟨Settings.default.endpoints, [], 0, false⟩

theorem batched_of_byTwo :
    ∃ (a : Assembly Unit Unit Unit) (log : List Call), Draft.byTwo.build .empty = .ok a ∧
      a.job.settings.threadCount = 1 ∧
      (a.job.run .listed 50 ⟨.fresh 1, ["a", " ", "b", "c"]⟩).2.state.phase = .completed ∧
      (a.job.run .listed 50 ⟨.fresh 1, ["a", " ", "b", "c"]⟩).2.panel.pool.map (·.accepted) =
        some [.batch 0 ["a", "b"] ";" ⟨none, .empty⟩, .batch 1 ["c"] ";" ⟨none, .empty⟩] ∧
      pulled log = ["a", " ", "b", "c"] ∧ exhausted log ∧
      Batched a.job.settings ⟨none, .empty⟩ True log
        (a.job.run .listed 50 ⟨.fresh 1, ["a", " ", "b", "c"]⟩).2 := by
  obtain ⟨a, ha⟩ : ∃ a, Draft.byTwo.build .empty = .ok a := ⟨_, rfl⟩
  obtain ⟨log, hlog, hb⟩ := batched_of_run ha (fun _ : True => by cases ha; rfl) (lawful_listed True)
    (s := ⟨.fresh 1, ["a", " ", "b", "c"]⟩) (by cases ha; rfl) 50
  cases ha
  obtain rfl := (congrArg (·.2.log) hlog).symm
  refine ⟨_, _, rfl, rfl, rfl, rfl, rfl, ?_, hb⟩
  exact (Run.sourceDone_steps _ _ 50 (by simp [Run.start, Pump.start, exhausted])).mp rfl

end BatchJob.Job
