import BatchJob.Proofs.Control.Office

/-! What requests come to. The state of a job tells what its pool will be set to once all orders are carried out,
and every request keeps it so. So it makes no difference which requests came before the pool and which after. -/
namespace BatchJob.Control
open Worker

/-- How many workers the job wants; no workers at all is no wish, and then the pool keeps those it came with. -/
def State.wish (given : Nat) (s : State) : Int := if s.threadCount = 0 then given else s.threadCount

/-- The pool is set as the state of the job has it. -/
structure Reflects (given : Nat) (s : State) (x : Setting) : Prop where
  closed : x.closed = s.paused
  discarding : x.discarding = s.stopRequested
  shut : x.shut = false
  target : x.target = s.wish given

variable {given : Nat} {s : State} {x : Setting}

theorem Request.closed_orders (r : Request) (h : x.closed = s.paused) :
    ((r.orders s).foldl Order.settle x).closed = (r.mark s).paused := by
  cases r with
  | pause =>
    simp only [orders, mark]
    split
    · exact h
    · simp [Order.settle]
  | resume =>
    simp only [orders, mark]
    split
    · exact h
    · simp [Order.settle]
  | stop =>
    simp only [orders, mark]
    split
    · exact h
    · rfl
  | setThreads count =>
    simp only [orders, mark]
    split
    · exact h
    · simp only [List.foldl_cons, List.foldl_nil, Order.settle]
      split <;> exact h

theorem Reflects.orders (h : Reflects given s x) (r : Request) :
    Reflects given (r.mark s) ((r.orders s).foldl Order.settle x) := by
  cases r with
  | pause =>
    simp only [Request.orders, Request.mark]
    split
    · exact h
    · exact ⟨by simp [Order.settle], by simpa [Order.settle] using h.discarding, h.shut,
        by simpa [Order.settle, State.wish] using h.target⟩
  | resume =>
    simp only [Request.orders, Request.mark]
    split
    · exact h
    · exact ⟨by simp [Order.settle], by simpa [Order.settle] using h.discarding, h.shut,
        by simpa [Order.settle, State.wish] using h.target⟩
  | stop =>
    simp only [Request.orders, Request.mark]
    split
    · exact h
    · exact ⟨rfl, rfl, h.shut, h.target⟩
  | setThreads count =>
    simp only [Request.orders, Request.mark]
    split
    · exact h
    · rename_i hc
      simp only [List.foldl_cons, List.foldl_nil, Order.settle, hc, h.shut, Bool.false_eq_true, or_self,
        if_false]
      exact ⟨h.closed, h.discarding, rfl, by simp [State.wish, hc]⟩

theorem reflects_attached {c : Worker.Settings} {q : Pool} (hq : Pool.create c = .ok q) (s : State) :
    Reflects c.workers s (Office.attached s q).shift.settled := by
  obtain ⟨-, crew, -, rfl⟩ := Pool.create_eq hq
  show Reflects c.workers s ((attachOrders s _).foldl Order.settle ⟨false, false, false, c.workers⟩)
  have hlast : ∀ closed discarding : Bool, closed = s.paused → discarding = s.stopRequested →
      Reflects c.workers s (List.foldl Order.settle ⟨closed, discarding, false, c.workers⟩
        (if (c.workers : Int) = s.threadCount then [] else [.workers s.threadCount])) := by
    intro closed discarding hc hd
    split
    · rename_i ht
      refine ⟨hc, hd, rfl, ?_⟩
      simp only [List.foldl_nil, State.wish]
      split <;> omega
    · by_cases hz : s.threadCount = 0 <;>
        exact ⟨by simpa [Order.settle, hz] using hc, by simpa [Order.settle, hz] using hd,
          by simp [Order.settle, hz], by simp [Order.settle, hz, State.wish]⟩
  simp only [attachOrders, List.foldl_append]
  cases hs : s.stopRequested <;> cases hp : s.paused <;> exact hlast _ _ hp.symm hs.symm

namespace Office

variable {x y : Office} {e : Event} {es : List Event}

theorem settled_step? (he : e.attends = true) (h : x.step? e = some y) :
    y.shift.settled = match e with
      | .request r => (r.orders x.state).foldl Order.settle x.shift.settled
      | _ => x.shift.settled := by
  obtain ⟨hs, -⟩ := step?_eq_some h
  cases e with
  | request r => exact (Shift.settled_give hs).2
  | proceed => exact Shift.settled_proceed? hs
  | deed d => exact Shift.settled_deed he hs

/-- What every request keeps between the state and what is about to be set, a run keeps. -/
theorem kept_run? {kept : State → Setting → Prop}
    (hkept : ∀ s x (r : Request), kept s x → kept (r.mark s) ((r.orders s).foldl Order.settle x))
    (h : x.run? es = some y) (he : ∀ e ∈ es, e.attends = true) (hx : kept x.state x.shift.settled) :
    kept y.state y.shift.settled := by
  refine runs?_induction (motive := fun z => kept z.state z.shift.settled)
    (fun z e z' hattends hz hz' => ?_) h he hx
  have hsettled := settled_step? hattends hz'
  rw [(step?_eq_some hz').2]
  cases e with
  | request r =>
    rw [hsettled]
    exact hkept _ _ r hz
  | _ =>
    rw [hsettled]
    exact hz

end Office

/-- What becomes of a job and its pool. -/
structure Standing where
  phase : Phase
  paused : Bool
  stopRequested : Bool
  threadCount : Nat
  closed : Bool
  discarding : Bool
  target : Int
  deriving DecidableEq

def Standing.of (s : State) (x : Setting) : Standing :=
  ⟨s.phase, s.paused, s.stopRequested, s.threadCount, x.closed, x.discarding, x.target⟩

def Panel.standing? (p : Panel) : Option Standing := p.pool.map fun q => .of p.state q.setting

def Office.standing (x : Office) : Standing := .of x.state x.pool.setting

theorem Reflects.standing (h : Reflects given s x) :
    Standing.of s x = ⟨s.phase, s.paused, s.stopRequested, s.threadCount, s.paused, s.stopRequested,
      s.wish given⟩ := by
  rw [Standing.of, h.closed, h.discarding, h.target]

theorem Panel.state_handleAll (p : Panel) (rs : List Request) :
    (rs.foldl handle p).state = Request.markAll p.state rs := by
  induction rs generalizing p with
  | nil => rfl
  | cons r rs ih =>
    rw [List.foldl_cons, ih, handle_eq]
    rfl

/-- Whatever was requested before a pool came and whatever after: the job and the pool are the same in the end,
whether requests are carried out at one go or step by step while everybody else goes on. -/
theorem standing_of_split {c : Worker.Settings} {q : Pool} (hq : Pool.create c = .ok q) (p : Panel)
    (rs : List Request) :
    ∃ standing : Standing, ∀ before after, before ++ after = rs →
      (after.foldl Panel.handle ((before.foldl Panel.handle p).attach q)).standing? = some standing ∧
        ∀ es y, (Office.attached (before.foldl Panel.handle p).state q).run? es = some y →
          requests es = after → (∀ e ∈ es, e.attends = true) → y.isIdle = true → y.standing = standing := by
  let s := Request.markAll p.state rs
  refine ⟨⟨s.phase, s.paused, s.stopRequested, s.threadCount, s.paused, s.stopRequested, s.wish c.workers⟩,
    fun before after hsplit => ?_⟩
  have hoffice : ∀ es y, (Office.attached (before.foldl Panel.handle p).state q).run? es = some y →
      requests es = after → (∀ e ∈ es, e.attends = true) → y.isIdle = true → y.standing =
        ⟨s.phase, s.paused, s.stopRequested, s.threadCount, s.paused, s.stopRequested, s.wish c.workers⟩ := by
    intro es y hrun hrequests hattends hidle
    have hreflects := Office.kept_run? (fun _ _ r h => h.orders r) hrun hattends (reflects_attached hq _)
    rw [Shift.settled_of_isIdle hidle] at hreflects
    have hstate : y.state = s := by
      rw [Office.state_run? hrun, hrequests]
      show Request.markAll (before.foldl Panel.handle p).state after = Request.markAll p.state rs
      rw [Panel.state_handleAll, ← hsplit]
      exact (List.foldl_append ..).symm
    rw [← hstate]
    exact hreflects.standing
  refine ⟨?_, hoffice⟩
  -- At one go is one of the ways to do it step by step.
  obtain ⟨es, x, hx⟩ := Office.exists_served_attached (before.foldl Panel.handle p) q
  obtain ⟨es', y, hy⟩ := Office.exists_served_handleAll hx.idle after
  have hboth := hx.trans hy
  rw [← hx.panel, ← hy.panel, ← hoffice _ y hboth.run hboth.requests hboth.attends hboth.idle]
  rfl

/-- Pausing and stopping, and more workers and fewer again. -/
def backAndForth : List Request := [.pause, .setThreads 5, .stop, .setThreads 3, .setThreads 0, .pause]

theorem standing_of_backAndForth :
    ∃ q, Pool.create ⟨2, 4, Worker.Settings.minStackSize, 5⟩ = .ok q ∧
      (backAndForth.foldl Panel.handle ((Panel.fresh 2).attach q)).standing? =
        ((backAndForth.foldl Panel.handle (Panel.fresh 2)).attach q).standing? ∧
      (backAndForth.foldl Panel.handle ((Panel.fresh 2).attach q)).standing? =
        some ⟨.init, true, true, 3, true, true, 3⟩ := by
  obtain ⟨q, hq⟩ : ∃ q, Pool.create ⟨2, 4, Worker.Settings.minStackSize, 5⟩ = .ok q := ⟨_, rfl⟩
  obtain ⟨standing, h⟩ := standing_of_split hq (Panel.fresh 2) backAndForth
  have hafter := (h [] backAndForth rfl).1
  have hbefore := (h backAndForth [] (List.append_nil _)).1
  refine ⟨q, hq, hafter.trans hbefore.symm, ?_⟩
  cases hq
  rfl

end BatchJob.Control
