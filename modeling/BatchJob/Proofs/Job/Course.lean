import BatchJob.Job.Run
import BatchJob.Proofs.Job.Batching

/-! The legs of a whole run. Until the pumping begins there is no pool and nothing has come from the source;
once it is over the pool is spent, by whichever legs the run comes to its report. -/
namespace BatchJob.Job
open Worker Queue Control

/-- The legs before the pumping. -/
inductive Early : Leg → Prop
  | starting : Early .starting
  | opening : Early .opening
  | hooking (stage : Stage) {next : Leg} (h : Early next) : Early (.hooking stage next)
  | weighing : Early .weighing
  | launching : Early .launching
  | launched : Early .launched
  | staffing : Early .staffing

/-- The legs on which the result of the run is settled and its phase is not yet. -/
inductive Late (result : Result) : Leg → Prop
  | dismissing : Late result (.dismissing result)
  | emptying : Late result (.emptying result)
  | shutting : Late result (.shutting result)
  | crashed : Late result (.crashed result)
  | tallying : Late result (.tallying result)
  | hooking (stage : Stage) {next : Leg} (h : Late result next) : Late result (.hooking stage next)
  | closing : Late result (.closing result)
  | ending : Late result (.ending result)

/-- The last legs. -/
inductive Last : Leg → Prop
  | reporting (result : Result) : Last (.reporting result)
  | done (report : Except JobError Control.Report) : Last (.over report)

/-- There is no pool yet, and the machine that will feed it has not begun. -/
structure Unstaffed {σ : Type} (solo : Prop) (queue : Staging) (p : Pump) (s : World σ) : Prop where
  pool : s.panel.pool = none
  pump : p = .start queue
  succeeded : s.state.succeeded = 0
  failed : s.state.failed = 0
  phase : s.state.phase.isFinal = false
  threads : solo → s.state.threadCount = 1

/-- How far a run has come that had `raw` from its source. -/
inductive Course {σ : Type} (c : Ready) (solo : Prop) (raw : List String) (r : Run) (s : World σ) : Prop
  | early (hl : Early r.leg) (hraw : raw = []) (h : Unstaffed solo c.queue r.pump s)
  | pumping (hl : r.leg = .pumping) (h : Fed c.settings r.request solo raw r.pump s)
  | late {result : Result} (hl : Late result r.leg)
    (h : Ended c.settings r.request solo raw r.pump.sourceDone result s)
    (hphase : s.state.phase.isFinal = false)
  | last {result : Result} (hl : Last r.leg)
    (h : Ended c.settings r.request solo raw r.pump.sourceDone result s)
    (hphase : s.state.phase = Run.phaseOf result)

variable {σ : Type} {w : Surroundings σ} {c : Ready} {request : Work.Request} {solo : Prop}
variable {raw : List String} {r : Run} {p : Pump} {q : Pool} {s s' : World σ}
variable {result : Result} {done : Bool}

theorem Unstaffed.stirred {queue : Staging} (h : Unstaffed solo queue p s)
    (hs : Stirred solo s.panel s'.panel) : Unstaffed solo queue p s' where
  pool := hs.noPool h.pool
  pump := h.pump
  succeeded := hs.succeeded.trans h.succeeded
  failed := hs.failed.trans h.failed
  phase := by
    rw [World.state, hs.isFinal_eq]
    exact h.phase
  threads hsolo := (hs.threads hsolo).trans (h.threads hsolo)

/-- Nobody but the run itself brings it further. -/
theorem Course.stirred (h : Course c solo raw r s) (hs : Stirred solo s.panel s'.panel) :
    Course c solo raw r s' := by
  cases h with
  | early hl hraw h => exact .early hl hraw (h.stirred hs)
  | pumping hl h => exact .pumping hl (h.stirred hs)
  | late hl h hphase =>
    refine .late hl (h.stirred hs) ?_
    rw [World.state, hs.isFinal_eq]
    exact hphase
  | @last result hl h hphase =>
    refine .last hl (h.stirred hs) ?_
    have hfinal : s.panel.state.phase.isFinal = true := by
      rw [← World.state, hphase]
      exact Run.isFinal_phaseOf result
    rcases hs.phase with he | ⟨hopen, -⟩
    · exact he.trans hphase
    · rw [hfinal] at hopen
      cases hopen

theorem Unstaffed.ended {queue : Staging} (h : Unstaffed solo queue p s)
    (hr : result = .ok .completed → s.state.total = 0) :
    Ended c.settings request solo raw done result s := by
  refine ⟨fun q hq => ?_, fun q hq => ?_, fun he => Or.inl ⟨hr he, h.pool⟩⟩
  · rw [h.pool] at hq
    cases hq
  · rw [h.pool] at hq
    cases hq

theorem Unstaffed.fail (h : Unstaffed solo c.queue r.pump s) (hraw : raw = []) (e : JobError) :
    Course c solo raw (r.fail e) s := by
  subst hraw
  exact .late .closing (h.ended (by simp)) h.phase

theorem Unstaffed.staff (h : Unstaffed solo c.queue r.pump s) (hqueue : c.queue.Holds [])
    (hone : solo → c.settings.threadCount = 1) :
    Course c solo [] (r.staff w c.settings s).1 (r.staff w c.settings s).2 := by
  rw [Run.staff]
  cases hq : Pool.create c.settings.workers with
  | error e => exact h.fail rfl _
  | ok q =>
    obtain ⟨hsub, hcompl, hblk, hrec, htarget⟩ := Pool.idle_create hq
    have horderly : q.Orderly solo [] := Pool.orderly_create hq hone
    have hcatch : Pool.Leads (Others solo) q [] (Panel.catchUp s.state q) := by
      refine leads_catchUp fun hs => ?_
      have hworkers : c.settings.workers.workers = 1 := hone hs
      rw [htarget, h.threads hs, hworkers]
    obtain ⟨horderly', hserves⟩ := leads_others horderly hcatch
    have hreply : ∀ i, q.reply i ≠ .refused := fun i => by simp [Pool.reply, hsub]
    have hfeeding : Feeding c.settings r.request solo [] [] [] r.pump q := by
      rw [h.pump]
      refine ⟨⟨[], horderly⟩, by simp [Pool.units, hsub, batches], rfl, hqueue, fun more _ => rfl,
        Nat.zero_le _, by rw [hrec]; exact Nat.zero_le _, by simp [Pump.start, Point.waitsFor?, hrec, hsub],
        fun i hi => absurd hi (hreply i), fun i hi => (by cases hi), fun t ht => ?_⟩
      rw [hblk] at ht
      cases ht
    have htallied : Tallied s.state q := by simp [Tallied, h.succeeded, h.failed, hcompl]
    have hfed : Fed c.settings r.request solo [] r.pump { s with panel := s.panel.attach q } := by
      refine ⟨⟨Panel.catchUp s.state q, [], [], rfl, ?_, ?_⟩, h.phase⟩
      · exact hfeeding.serves horderly' hserves
      · exact htallied.serves hfeeding.received_le hserves rfl rfl
    have hstart : r.pump.point.waitsFor? = none := by
      rw [h.pump]
      rfl
    simp only
    split
    · exact .late .dismissing (hfed.ended hstart (by simp)) hfed.phase
    · exact .pumping rfl hfed

theorem runHook_cases {law : Panel → Panel → Prop} (hw : w.Lawful law) (hrefl : ∀ p, law p p)
    (stage : Stage) (next : Leg) (r : Run) (s : World σ) :
    ∃ s', law s.panel s'.panel ∧
      (r.runHook w stage next s = (r.go next, s') ∨ ∃ e, r.runHook w stage next s = (r.fail e, s')) := by
  rw [Run.runHook]
  cases hh : w.hook stage with
  | none => exact ⟨s, hrefl _, Or.inl rfl⟩
  | some hook =>
    have hact := hw.hook stage hook hh ⟨stage, s.state.total, r.request⟩ s
    simp only
    cases ha : hook ⟨stage, s.state.total, r.request⟩ s with
    | mk answer s' =>
      rw [ha] at hact
      cases answer with
      | error text => exact ⟨s', hact, Or.inr ⟨_, rfl⟩⟩
      | ok u => exact ⟨s', hact, Or.inl rfl⟩

theorem Unstaffed.openSource (hw : w.Lawful (Stirred solo)) (h : Unstaffed solo c.queue r.pump s) :
    Course c solo [] (r.openSource w c.vars s).1 (r.openSource w c.vars s).2 := by
  have hact := hw.openSource s
  rw [Run.openSource]
  cases ha : w.openSource s with
  | mk answer s' =>
    rw [ha] at hact
    have hs' : Unstaffed solo c.queue r.pump s' := h.stirred hact
    cases answer with
    | error text => exact hs'.fail rfl _
    | ok u =>
      refine .early (.hooking .init .weighing) rfl ?_
      exact ⟨hs'.pool, hs'.pump, hs'.succeeded, hs'.failed, hs'.phase, hs'.threads⟩

theorem Unstaffed.weigh (h : Unstaffed solo c.queue r.pump s) :
    Course c solo [] (r.go (Run.course c.settings s.state.total)) s := by
  rw [Run.course]
  split
  · exact .early (.hooking .preBatch .launching) rfl h
  · rename_i hzero
    have hended : Ended c.settings r.request solo [] r.pump.sourceDone (.ok .completed) s :=
      h.ended fun _ => by omega
    split
    · exact .late (.hooking .preBatch (.hooking .postBatch .closing)) hended h.phase
    · exact .late .closing hended h.phase

theorem Ended.fail (h : Ended c.settings request solo raw done result s) (e : JobError) :
    Ended c.settings request solo raw done (.error e) s :=
  ⟨h.pool, h.blocked, fun he => by cases he⟩

def Dismisses (a : Worker.Act) : Prop := a = .discard ∨ a = .drop ∨ Pool.Shuts a

theorem Ended.dismissed (h : Ended c.settings request solo raw done result s)
    (hstate : s'.panel.state = s.panel.state) (hnone : s.panel.pool = none → s'.panel.pool = none)
    (hsome : ∀ q, s.panel.pool = some q → ∃ q' k, s'.panel.pool = some q' ∧ Pool.Leads Dismisses q k q') :
    Ended c.settings request solo raw done result s' := by
  refine h.follow hnone (fun q hq => ?_) ?_ ?_ ?_
  · obtain ⟨journal, hj⟩ := (h.pool q hq).orderly
    obtain ⟨q', k, hq', hk⟩ := hsome q hq
    have horderly := hj.leads (fun _ r => by rintro (hr | hr | hr | hr | hr) <;> cases hr)
      (fun u => by rintro (hu | hu | hu | hu | hu) <;> cases hu) hk
    refine ⟨q', _, hq', horderly, hj.sound.serves_leads (fun a ha => ?_) hk⟩
    rcases ha with rfl | rfl | rfl | rfl | rfl <;> trivial
  all_goals rw [World.state, hstate]; rfl

theorem Ended.onPool (h : Ended c.settings request solo raw done result s) {f : Pool → Pool}
    (hf : ∀ q, Pool.Leads Dismisses q [] (f q)) :
    Ended c.settings request solo raw done result (s.onPool f) := by
  have hpool : (s.onPool f).panel.pool = s.panel.pool.map f := rfl
  refine h.dismissed rfl (fun hn => by rw [hpool, hn]; rfl) fun q hq => ?_
  exact ⟨f q, [], by rw [hpool, hq]; rfl, hf q⟩

theorem Ended.dismiss (h : Ended c.settings r.request solo raw r.pump.sourceDone result s)
    (hphase : s.state.phase.isFinal = false) :
    Course c solo raw (r.dismiss result s).1 (r.dismiss result s).2 := by
  unfold Run.dismiss
  split
  · exact .late .shutting h hphase
  · exact .late .emptying (h.onPool fun q => Pool.Leads.single (a := .discard) (Or.inl rfl) rfl) hphase

theorem drop?_eq_some (h : s.drop? = some s') :
    ∃ q q', s.panel.pool = some q ∧ q.drop? = some q' ∧ s' = s.setPool q' := by
  obtain ⟨q', hq', rfl⟩ := Option.map_eq_some_iff.mp h
  obtain ⟨q, hq, hdrop⟩ := Option.bind_eq_some_iff.mp hq'
  exact ⟨q, q', hq, hdrop, rfl⟩

theorem Ended.empty (h : Ended c.settings r.request solo raw r.pump.sourceDone result s)
    (hl : r.leg = .emptying result) (hphase : s.state.phase.isFinal = false) :
    Course c solo raw (r.empty result s).1 (r.empty result s).2 := by
  rw [Run.empty]
  cases hd : s.drop? with
  | none => exact .late .shutting h hphase
  | some s' =>
    obtain ⟨q, q', hq, hdrop, rfl⟩ := drop?_eq_some hd
    refine .late (hl ▸ .emptying) (h.dismissed rfl (fun hn => ?_) fun q₁ hq₁ => ?_) hphase
    · rw [hq] at hn
      cases hn
    · rw [hq] at hq₁
      cases hq₁
      exact ⟨q', _, pool_setPool hq q', Pool.Leads.single (a := .drop) (Or.inr (Or.inl rfl)) hdrop⟩

theorem Spent.receiveMore (h : Spent c.settings request solo raw done q) (n : Nat) :
    Spent c.settings request solo raw done { q with received := n } := by
  obtain ⟨journal, hj⟩ := h.orderly
  exact ⟨⟨journal, hj.receiveMore n⟩, h.units, h.refused⟩

/-- Some completions are tallied, one after the other. -/
def tallies (completions : List Completed) (t : State) : State :=
  completions.foldl (fun t done => tally done t) t

theorem apply_tallies {α : Type} {f : State → α} (hf : ∀ done t, f (tally done t) = f t)
    (completions : List Completed) (t : State) : f (tallies completions t) = f t := by
  induction completions generalizing t with
  | nil => rfl
  | cons done rest ih => exact (ih (tally done t)).trans (hf done t)

theorem tallyRest_eq {n : Nat} (hq : s.panel.pool = some q) (hn : n ≤ q.completions.length - q.received) :
    Run.tallyRest n s = (s.setPool { q with received := q.received + n }).onState
      (tallies ((q.completions.drop q.received).take n)) := by
  induction n generalizing s q with
  | zero =>
    obtain ⟨⟨state, pool, attached⟩, rest⟩ := s
    cases hq
    rfl
  | succ n ih =>
    have hlt : q.received < q.completions.length := by omega
    have hdone : q.completions[q.received]? = some q.completions[q.received] :=
      List.getElem?_eq_getElem hlt
    rw [Run.tallyRest, receive_eq hq, Pool.receive_some hdone]
    have hpool : ((s.setPool { q with received := q.received + 1 }).onState
        (tally q.completions[q.received])).panel.pool = some { q with received := q.received + 1 } :=
      pool_setPool hq _
    have hrest := ih hpool (by simp only; omega)
    simp only
    rw [hrest, List.drop_eq_getElem_cons hlt, List.take_succ_cons]
    obtain ⟨⟨state, pool, attached⟩, rest⟩ := s
    cases hq
    simp only [World.setPool, World.onPool, World.onState, Panel.onPool, Panel.onState, Option.map_some,
      Nat.add_assoc, Nat.add_comm 1 n]
    rfl

/-- What is noted of the discarded units when a run that did not complete is over. -/
def noted (result : Result) (q : Pool) (t : State) : State :=
  match result with
  | .ok .completed => t
  | _ => { t with discarded := q.counters.discarded }

theorem tallyAll_eq (hq : s.panel.pool = some q) (result : Result) :
    (Run.tallyAll result s).panel =
      ⟨tallies (q.completions.drop q.received) (noted result q s.state),
        some { q with received := q.received + (q.completions.length - q.received) }, false⟩ := by
  have hnote : Run.noteDiscarded result s = s.onState (noted result q) := by
    unfold Run.noteDiscarded noted
    split
    · rfl
    · simp only [Run.discarded, hq, Option.map_some, Option.getD_some]
  have hrest : Run.unreceived (s.onState (noted result q)) = q.completions.length - q.received := by
    have hpool : (s.onState (noted result q)).panel.pool = some q := hq
    rw [Run.unreceived, hpool, Option.map_some, Option.getD_some]
  have hall : (q.completions.drop q.received).take (q.completions.length - q.received) =
      q.completions.drop q.received := List.take_of_length_le (by simp)
  have hpool : (⟨(s.onState (noted result q)).panel.detach, s.rest⟩ : World σ).panel.pool = some q := hq
  simp only [Run.tallyAll]
  rw [hnote, hrest]
  change (Run.tallyRest _ (⟨(s.onState (noted result q)).panel.detach, s.rest⟩ : World σ)).panel = _
  rw [tallyRest_eq hpool (Nat.le_refl _), hall]
  obtain ⟨⟨state, pool, attached⟩, rest⟩ := s
  cases hq
  rfl

theorem tallyAll_none (hnone : s.panel.pool = none) (result : Result) :
    (Run.tallyAll result s).panel = (Run.noteDiscarded result s).panel.detach := by
  have hpool : (Run.noteDiscarded result s).panel.pool = none := by
    unfold Run.noteDiscarded
    split <;> exact hnone
  have hrest : Run.unreceived (Run.noteDiscarded result s) = 0 := by
    rw [Run.unreceived, hpool, Option.map_none, Option.getD_none]
  rw [Run.tallyAll, hrest]
  rfl

theorem Ended.tallyAll (h : Ended c.settings request solo raw done result s) :
    Ended c.settings request solo raw done result (Run.tallyAll result s) ∧
      (Run.tallyAll result s).state.phase = s.state.phase := by
  cases hp : s.panel.pool with
  | none =>
    have hpanel := tallyAll_none hp result
    have hnote : (Run.tallyAll result s).panel.pool = none ∧
        (Run.tallyAll result s).state.total = s.state.total ∧
        (Run.tallyAll result s).state.phase = s.state.phase := by
      rw [World.state, hpanel]
      unfold Run.noteDiscarded
      split <;> exact ⟨hp, rfl, rfl⟩
    obtain ⟨hpool, htotal, hphase⟩ := hnote
    refine ⟨⟨fun q hq => ?_, fun q hq => ?_, fun hr => ?_⟩, hphase⟩
    · rw [hpool] at hq
      cases hq
    · rw [hpool] at hq
      cases hq
    · rcases h.whole hr with ⟨hzero, -⟩ | ⟨-, q, hq, -⟩
      · exact Or.inl ⟨htotal.trans hzero, hpool⟩
      · rw [hp] at hq
        cases hq
  | some q =>
    have hpanel := tallyAll_eq hp result
    have hpool : (Run.tallyAll result s).panel.pool =
        some { q with received := q.received + (q.completions.length - q.received) } := by rw [hpanel]
    have hstate : (Run.tallyAll result s).state =
        tallies (q.completions.drop q.received) (noted result q s.state) := by
      rw [World.state, hpanel]
    have hnoted : (noted result q s.state).phase = s.state.phase := by
      unfold noted
      split <;> rfl
    refine ⟨⟨fun q' hq' => ?_, fun q' hq' => ?_, fun hr => ?_⟩, ?_⟩
    · rw [hpool] at hq'
      cases hq'
      exact (h.pool q hp).receiveMore _
    · rw [hpool] at hq'
      cases hq'
      exact h.blocked q hp
    · rcases h.whole hr with ⟨-, hnone⟩ | ⟨hd, q', hq', hw, hsum⟩
      · rw [hp] at hnone
        cases hnone
      · rw [hp] at hq'
        cases hq'
        subst hr
        -- A completed run has received everything, and so there is nothing to tally.
        have hall : q.completions.length - q.received = 0 := by
          rw [hw.completions, hw.received, Nat.sub_self]
        have hrest : q.completions.drop q.received = [] :=
          List.drop_eq_nil_of_le (by rw [hw.completions, hw.received])
        rw [hall] at hpool
        rw [hrest] at hstate
        refine Or.inr ⟨hd, q, hpool, hw, ?_⟩
        rw [hstate]
        exact hsum
    · rw [hstate, apply_tallies (f := State.phase) phase_tally, hnoted]

theorem lawful_close {law : Panel → Panel → Prop} (hw : w.Lawful law)
    (htrans : ∀ p p' p'', law p p' → law p' p'' → law p p'') (queue : Staging) (s : World σ) :
    law s.panel (Run.close w queue s).panel := by
  have hkeep := hw.keep (queue.close (w.disk s)).2.isOpen s
  have hsource := hw.closeSource (w.keep (queue.close (w.disk s)).2.isOpen s)
  exact htrans _ _ _ (htrans _ _ _ hkeep hsource) (hw.closeEndpoints _)

theorem phase_moved {t : State} (h : t.phase.isFinal = false) {next : Phase}
    (hn : next.isFinal = true) : (t.moved next).phase = next := by
  have hall : ∀ p q : Phase, p.isFinal = false → q.isFinal = true → (p.move q).2 = q := by
    intro p q hp hq
    cases p <;> cases hp <;> cases q <;> cases hq <;> rfl
  exact hall _ _ h hn

theorem Course.start (hs : s.panel = .fresh c.settings.threadCount)
    (hone : solo → c.settings.threadCount = 1) : Course c solo [] (Run.start c.queue) s := by
  have hstate : s.state = .fresh c.settings.threadCount := by rw [World.state, hs]; rfl
  refine .early .starting rfl ⟨by rw [hs]; rfl, rfl, ?_, ?_, ?_, fun h => ?_⟩
  · rw [hstate]
    rfl
  · rw [hstate]
    rfl
  · rw [hstate]
    rfl
  · rw [hstate]
    exact hone h

theorem Unstaffed.step (hw : w.Lawful (Stirred solo)) (hqueue : c.queue.Holds [])
    (hone : solo → c.settings.threadCount = 1) (hl : Early r.leg)
    (h : Unstaffed solo c.queue r.pump (w.meanwhile r.moment s)) :
    Course c solo [] (r.step w c s).1 (r.step w c s).2 := by
  rw [Run.step]
  generalize w.meanwhile r.moment s = s at h ⊢
  generalize r.leg = leg at hl ⊢
  have hstate : ∀ (leg : Leg) (s' : World σ), Early leg → Stirred solo s.panel s'.panel →
      Course c solo [] (r.go leg) s' := fun leg s' hearly hs => .early hearly rfl (h.stirred hs)
  cases hl with
  | starting =>
    have hs : Stirred solo s.panel (s.onState fun t => { t with started := some (w.now s) }).panel := by
      simp only [World.onState]
      exact stirred_onState rfl rfl rfl (fun _ => rfl) (Or.inl rfl)
    exact hstate .opening _ .opening hs
  | opening => exact h.openSource hw
  | @hooking stage next hnext =>
    obtain ⟨s', hs, heq | ⟨e, heq⟩⟩ := runHook_cases hw .refl stage next r s
    · simp only [heq]
      exact hstate next s' hnext hs
    · simp only [heq]
      exact (h.stirred hs).fail rfl e
  | weighing => exact h.weigh
  | launching => exact hstate .launched _ .launched (stirred_moved h.phase rfl)
  | launched =>
    simp only
    split
    · exact hstate .staffing _ .staffing (stirred_moved h.phase rfl)
    · exact hstate .staffing s .staffing (.refl _)
  | staffing => exact h.staff hqueue hone

theorem Ended.step (hw : w.Lawful (Stirred solo)) (hl : Late result r.leg)
    (h : Ended c.settings r.request solo raw r.pump.sourceDone result (w.meanwhile r.moment s))
    (hphase : (w.meanwhile r.moment s).state.phase.isFinal = false) :
    Course c solo raw (r.step w c s).1 (r.step w c s).2 := by
  rw [Run.step]
  generalize w.meanwhile r.moment s = s at h hphase ⊢
  generalize hleg : r.leg = leg at hl ⊢
  have hkeep : ∀ s' : World σ, Stirred solo s.panel s'.panel → s'.state.phase.isFinal = false := by
    intro s' hs
    rw [World.state, hs.isFinal_eq]
    exact hphase
  cases hl with
  | dismissing => exact h.dismiss hphase
  | emptying => exact h.empty hleg hphase
  | shutting =>
    have hclosed : Ended c.settings r.request solo raw r.pump.sourceDone result (s.onPool .close) :=
      h.onPool fun q => (Pool.leads_close q).mono fun a ha => Or.inr (Or.inr ha)
    simp only [Run.shut]
    split
    · exact .late .tallying hclosed hphase
    · exact .late .crashed hclosed hphase
  | crashed =>
    refine .late ?_ h hphase
    rw [hleg]
    exact .crashed
  | tallying =>
    obtain ⟨htally, hsame⟩ := h.tallyAll
    have hafter : Late result (Run.afterWork result) := by
      unfold Run.afterWork
      split
      · exact .hooking .postBatch .closing
      · exact .closing
    refine .late hafter htally ?_
    rw [hsame]
    exact hphase
  | @hooking stage next hnext =>
    obtain ⟨s', hs, heq | ⟨e, heq⟩⟩ := runHook_cases hw .refl stage next r s
    · simp only [heq]
      exact .late hnext (h.stirred hs) (hkeep s' hs)
    · simp only [heq]
      exact .late .closing ((h.stirred hs).fail e) (hkeep s' hs)
  | closing =>
    have hs := lawful_close hw (fun _ _ _ => Stirred.trans) r.pump.queue s
    exact .late .ending (h.stirred hs) (hkeep _ hs)
  | ending =>
    have hsettled := phase_moved hphase (Run.isFinal_phaseOf result)
    refine .last (.reporting result) ?_ hsettled
    refine h.follow id (fun q hq => ?_) rfl rfl rfl
    obtain ⟨journal, hj⟩ := (h.pool q hq).orderly
    exact ⟨q, journal, hq, hj, .refl q⟩

theorem pulled_calls_of_ne (h : r.leg ≠ .pumping) (s : World σ) : pulled (r.calls w s) = [] := by
  rw [Run.calls]
  cases hl : r.leg with
  | pumping => exact absurd hl h
  | opening =>
    simp only
    split <;> rfl
  | hooking stage next =>
    simp only
    cases w.hook stage <;> rfl
  | _ => rfl

theorem Course.step (hw : w.Lawful (Stirred solo)) (hc : 0 < c.settings.batchSize)
    (hqueue : c.queue.Holds []) (hone : solo → c.settings.threadCount = 1)
    (h : Course c solo raw r s) :
    Course c solo (raw ++ pulled (r.calls w (w.meanwhile r.moment s))) (r.step w c s).1 (r.step w c s).2 := by
  -- The source is asked by the pumping alone.
  have hquiet : r.leg ≠ .pumping → raw ++ pulled (r.calls w (w.meanwhile r.moment s)) = raw := fun hne => by
    rw [pulled_calls_of_ne hne, List.append_nil]
  cases h.stirred (hw.meanwhile r.moment s) with
  | early hl hraw hnone =>
    rw [hquiet fun he => by rw [he] at hl; cases hl]
    subst hraw
    exact hnone.step hw hqueue hone hl
  | pumping hl hfed =>
    have hgoes := hfed.step hw hc
    have hcalls : r.calls w (w.meanwhile r.moment s) = r.pump.asks w (w.meanwhile r.moment s) := by
      rw [Run.calls, hl]
    rw [hcalls]
    unfold Run.step Run.pumpOn
    simp only [hl]
    cases hstep : r.pump.step w c.settings r.request (w.meanwhile r.moment s) with
    | mk result rest =>
      obtain ⟨p, s'⟩ := rest
      rw [hstep] at hgoes
      cases result with
      | none => exact .pumping rfl hgoes
      | some result => exact .late .dismissing hgoes.1 hgoes.2
  | late hl hended hphase =>
    rw [hquiet fun he => by rw [he] at hl; cases hl]
    exact hended.step hw hl hphase
  | @last result hl hended hphase =>
    rw [hquiet fun he => by rw [he] at hl; cases hl]
    rw [Run.step]
    generalize w.meanwhile r.moment s = s at hended hphase ⊢
    generalize hleg : r.leg = leg at hl ⊢
    cases hl with
    | reporting result' =>
      have hs : Stirred solo s.panel (s.onState fun t =>
          { t with report := some (Run.report w result' s) }).panel := by
        simp only [World.onState]
        exact stirred_onState rfl rfl rfl (fun _ => rfl) (Or.inl rfl)
      exact .last (.done _) (hended.stirred hs) hphase
    | done report =>
      refine .last ?_ hended hphase
      rw [hleg]
      exact .done report

/-- Of any number of steps the record tells what came from the source. -/
theorem Course.steps (hw : w.Lawful (Stirred solo)) (hc : 0 < c.settings.batchSize)
    (hqueue : c.queue.Holds []) (hone : solo → c.settings.threadCount = 1) (n : Nat) {log : List Call}
    (h : Course c solo (pulled log) r s) :
    Course c solo (pulled (Run.steps w.recorded c n r (s.noting log)).2.log) (Run.steps w c n r s).1
      (Run.steps w c n r s).2 := by
  induction n generalizing log r s with
  | zero => exact h
  | succ n ih =>
    by_cases hover : r.isOver
    · rw [Run.steps_of_isOver hover, Run.steps_of_isOver hover]
      exact h
    · have hstep := h.step hw hc hqueue hone
      rw [← pulled_append] at hstep
      rw [Run.steps_succ hover, Run.steps_succ hover, Run.step_recorded]
      exact ih hstep

end BatchJob.Job
