import BatchJob.Control.Panel
import BatchJob.Proofs.Worker.Shift

/-! Where requests to a job are carried out while its workers go on. A request marks the state of the job at once
and gives orders to the worker pool, which are carried out one after the other. The next request waits until
they are. Left alone, a request does what it does at one go. -/
namespace BatchJob.Control
open Worker

namespace Panel

variable (paused : Bool) (here there : Phase) (s : State)

@[simp] theorem paused_setPaused : (setPaused paused here there s).paused = paused := by
  simp only [setPaused]
  split <;> rfl

@[simp] theorem stopRequested_setPaused :
    (setPaused paused here there s).stopRequested = s.stopRequested := by
  simp only [setPaused]
  split <;> rfl

@[simp] theorem threadCount_setPaused : (setPaused paused here there s).threadCount = s.threadCount := by
  simp only [setPaused]
  split <;> rfl

end Panel

namespace Request

def mark (s : State) : Request → State
  | pause => if s.phase.isFinal then s else Panel.setPaused true .running .paused s
  | resume => if s.phase.isFinal then s else Panel.setPaused false .paused .running s
  | stop => if s.stopRequested then s else { s with stopRequested := true, paused := false }
  | setThreads count => if count = 0 then s else { s with threadCount := count }

def orders (s : State) : Request → List Order
  | pause => if s.phase.isFinal then [] else [.pause]
  | resume => if s.phase.isFinal then [] else [.resume]
  | stop => if s.stopRequested then [] else [.discard, .resume]
  | setThreads count => if count = 0 then [] else [.workers count]

def markAll (s : State) (requests : List Request) : State := requests.foldl mark s

theorem stopRequested_mark (r : Request) (s : State) :
    (r.mark s).stopRequested = true ↔ s.stopRequested = true ∨ r = .stop := by
  cases r with
  | stop =>
    simp only [mark]
    split <;> simp_all
  | _ =>
    simp only [mark]
    split <;> simp

end Request

/-- What a new pool has to do to catch up. -/
def attachOrders (s : State) (q : Pool) : List Order :=
  (if s.stopRequested then [.discard] else []) ++ (if s.paused then [.pause] else []) ++
    if q.target = s.threadCount then [] else [.workers s.threadCount]

namespace Panel

theorem handle_eq (p : Panel) (r : Request) :
    p.handle r = ⟨r.mark p.state,
      if p.attached then p.pool.map fun q => (r.orders p.state).foldl Order.obey q else p.pool, p.attached⟩ := by
  have hboth : ∀ (p : Panel) (f : State → State) (g : Pool → Pool), (p.onState f).onAttached g =
      ⟨f p.state, if p.attached then p.pool.map g else p.pool, p.attached⟩ := by
    intro p f g
    simp only [onAttached, onState, onPool]
    split <;> simp_all
  cases r with
  | pause =>
    by_cases hf : p.state.phase.isFinal = true
    · simp [handle, pause, isFinal, hf, Request.mark, Request.orders]
    · simp [handle, pause, isFinal, hf, Request.mark, Request.orders, hboth, Order.obey, Order.apply]
  | resume =>
    by_cases hf : p.state.phase.isFinal = true
    · simp [handle, resume, isFinal, hf, Request.mark, Request.orders]
    · simp [handle, resume, isFinal, hf, Request.mark, Request.orders, hboth, Order.obey, Order.apply]
  | stop =>
    by_cases hs : p.state.stopRequested = true
    · simp [handle, stop, hs, Request.mark, Request.orders]
    · simp [handle, stop, hs, Request.mark, Request.orders, hboth, Order.obey, Order.apply]
  | setThreads count =>
    by_cases hc : count = 0
    · simp [handle, setThreads, hc, Request.mark, Request.orders]
    · simp [handle, setThreads, hc, Request.mark, Request.orders, hboth, Order.obey]

theorem foldl_onAttached (orders : List Order) (p : Panel) :
    orders.foldl (fun p o => p.onAttached (Order.obey · o)) p =
      ⟨p.state, if p.attached then p.pool.map fun q => orders.foldl Order.obey q else p.pool, p.attached⟩ := by
  induction orders generalizing p with
  | nil => cases p; simp
  | cons o rest ih =>
    rw [List.foldl_cons, ih]
    by_cases ha : p.attached = true <;> simp [onAttached, onPool, ha, Function.comp_def]

/-- Left alone, a request marks the state and then gives its orders one after the other. -/
theorem handle_eq_orders (p : Panel) (r : Request) : p.handle r =
    (r.orders p.state).foldl (fun p o => p.onAttached (Order.obey · o)) (p.onState (Request.mark · r)) := by
  rw [handle_eq, foldl_onAttached]
  rfl

theorem catchUp_eq (s : State) (q : Pool) : catchUp s q = (attachOrders s q).foldl Order.obey q := by
  simp only [catchUp, attachOrders, List.foldl_append]
  have htarget : ∀ p : Pool, p.target = q.target → (if p.target = s.threadCount then p else
      (p.setWorkers s.threadCount).2) = List.foldl Order.obey p
        (if q.target = s.threadCount then [] else [.workers s.threadCount]) := by
    intro p hp
    rw [hp]
    split <;> rfl
  cases s.stopRequested <;> cases s.paused <;> exact htarget _ rfl

end Panel

structure Office where
  state : State
  shift : Shift

inductive Event where
  | request (r : Request)
  | proceed
  | deed (d : Deed)

namespace Event

def mark (s : State) : Event → State
  | request r => r.mark s
  | _ => s

def turn (s : State) : Event → Turn
  | request r => .give (r.orders s)
  | proceed => .proceed
  | deed d => .deed d

def request? : Event → Option Request
  | request r => some r
  | _ => none

def attends : Event → Bool
  | deed d => d.attends
  | _ => true

end Event

def requests (es : List Event) : List Request := es.filterMap Event.request?

namespace Office

/-- A pool that is to catch up with what was requested before. -/
def attached (s : State) (q : Pool) : Office := ⟨s, ⟨.opened q, .done, attachOrders s q⟩⟩

def pool (x : Office) : Pool := x.shift.pool

def floor (x : Office) : Floor := x.shift.floor

def isIdle (x : Office) : Bool := x.shift.isIdle

def panel (x : Office) : Panel := ⟨x.state, some x.pool, true⟩

def step? (x : Office) (e : Event) : Option Office :=
  (x.shift.step? (e.turn x.state)).map fun s => ⟨e.mark x.state, s⟩

def run? (x : Office) (es : List Event) : Option Office := runs? step? x es

@[simp] theorem run?_nil (x : Office) : x.run? [] = some x := rfl

@[simp] theorem run?_cons (x : Office) (e : Event) (es : List Event) :
    x.run? (e :: es) = (x.step? e).bind fun y => y.run? es := rfl

variable {x y z : Office} {e : Event} {es es' : List Event}

theorem step?_eq_some (h : x.step? e = some y) :
    x.shift.step? (e.turn x.state) = some y.shift ∧ y.state = e.mark x.state := by
  obtain ⟨s, hs, rfl⟩ := Option.map_eq_some_iff.mp h
  exact ⟨hs, rfl⟩

theorem state_run? (h : x.run? es = some y) : y.state = Request.markAll x.state (requests es) := by
  induction es generalizing x with
  | nil =>
    cases h
    rfl
  | cons e es ih =>
    obtain ⟨x₁, h₁, hrest⟩ := Option.bind_eq_some_iff.mp h
    rw [ih hrest, (step?_eq_some h₁).2]
    cases e <;> rfl

theorem floor_run? (h : x.run? es = some y) : ∃ ds, x.floor.run? ds = some y.floor := by
  induction es generalizing x with
  | nil =>
    cases h
    exact ⟨[], rfl⟩
  | cons e es ih =>
    obtain ⟨x₁, h₁, hrest⟩ := Option.bind_eq_some_iff.mp h
    obtain ⟨ds, hds⟩ := Shift.floor_step? (step?_eq_some h₁).1
    obtain ⟨ds', hds'⟩ := ih hrest
    exact ⟨ds ++ ds', Floor.run?_append hds hds'⟩

theorem run?_proceed {k : Nat} {s : Shift} (h : x.shift.run? (List.replicate k .proceed) = some s) :
    x.run? (List.replicate k .proceed) = some ⟨x.state, s⟩ := by
  induction k generalizing x with
  | zero =>
    cases h
    rfl
  | succ k ih =>
    obtain ⟨s₁, h₁, hrest⟩ := Option.bind_eq_some_iff.mp h
    have hstep : x.step? .proceed = some ⟨x.state, s₁⟩ := by
      simp only [step?, Event.turn, h₁, Option.map_some]
      rfl
    simp only [List.replicate_succ, run?_cons, hstep, Option.bind_some]
    exact ih hrest

theorem exists_run?_orders (f : Floor) (s : State) (orders : List Order) :
    ∃ k, (⟨s, ⟨f, .done, orders⟩⟩ : Office).run? (List.replicate k .proceed) =
      some ⟨s, ⟨f.onPool fun p => orders.foldl Order.obey p, .done, []⟩⟩ := by
  obtain ⟨k, hk⟩ := Shift.run?_orders orders f
  exact ⟨k, run?_proceed hk⟩

/-- An office that did as the panel does, and to which nobody came but with requests. -/
structure Served (x : Office) (rs : List Request) (p : Panel) (es : List Event) (y : Office) : Prop where
  run : x.run? es = some y
  requests : requests es = rs
  attends : ∀ e ∈ es, e.attends = true
  idle : y.isIdle = true
  panel : y.panel = p

theorem requests_append (es es' : List Event) : Control.requests (es ++ es') =
    Control.requests es ++ Control.requests es' := List.filterMap_append ..

theorem Served.trans {p q : Panel} {rs rs' : List Request} (h : x.Served rs p es y) (h' : y.Served rs' q es' z) :
    x.Served (rs ++ rs') q (es ++ es') z where
  run := runs?_append h.run h'.run
  requests := by rw [requests_append, h.requests, h'.requests]
  attends e he := (List.mem_append.mp he).elim (h.attends e) (h'.attends e)
  idle := h'.idle
  panel := h'.panel

theorem requests_proceed (k : Nat) : requests (List.replicate k .proceed) = [] := by
  simp [requests, Event.request?]

theorem attends_proceed (k : Nat) : ∀ e ∈ List.replicate k Event.proceed, e.attends = true := fun e he => by
  rw [List.eq_of_mem_replicate he]
  rfl

theorem exists_served_attached (p : Panel) (q : Pool) :
    ∃ es y, (attached p.state q).Served [] (p.attach q) es y := by
  obtain ⟨k, hk⟩ := exists_run?_orders (.opened q) p.state (attachOrders p.state q)
  refine ⟨_, _, hk, requests_proceed k, attends_proceed k, rfl, ?_⟩
  simp only [Panel.attach, panel, pool, Shift.pool, Panel.catchUp_eq]
  rfl

theorem exists_served_handle (hx : x.isIdle = true) (r : Request) :
    ∃ es y, x.Served [r] (x.panel.handle r) es y := by
  obtain ⟨hr, ho⟩ := Shift.isIdle_iff.mp hx
  obtain ⟨k, hk⟩ := exists_run?_orders x.floor (r.mark x.state) (r.orders x.state)
  have hstep : x.step? (.request r) = some ⟨r.mark x.state, ⟨x.floor, .done, r.orders x.state⟩⟩ := by
    have hidle : x.shift.isIdle = true := hx
    simp only [step?, Event.turn, Shift.step?, hidle, if_true, Option.map_some, hr]
    rfl
  have hrun : x.run? (.request r :: List.replicate k .proceed) = some ⟨r.mark x.state,
      ⟨x.floor.onPool fun p => (r.orders x.state).foldl Order.obey p, .done, []⟩⟩ := by
    simp only [run?_cons, hstep, Option.bind_some]
    exact hk
  refine ⟨_, _, hrun, ?_, ?_, rfl, ?_⟩
  · simp [requests, Event.request?]
  · intro e he
    rcases List.mem_cons.mp he with rfl | he
    · rfl
    · exact attends_proceed k e he
  · rw [Panel.handle_eq]
    rfl

/-- What the panel does at one go is one way for the office to do it. -/
theorem exists_served_handleAll (hx : x.isIdle = true) (rs : List Request) :
    ∃ es y, x.Served rs (rs.foldl Panel.handle x.panel) es y := by
  induction rs generalizing x with
  | nil => exact ⟨[], x, rfl, rfl, by simp, hx, rfl⟩
  | cons r rs ih =>
    obtain ⟨es, y, hy⟩ := exists_served_handle hx r
    obtain ⟨es', z, hz⟩ := ih hy.idle
    rw [hy.panel] at hz
    exact ⟨es ++ es', z, hy.trans hz⟩

end Office
end BatchJob.Control
