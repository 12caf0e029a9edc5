import BatchJob.Proofs.Worker.Floor

/-! Somebody who gives orders to a worker pool, one after the other, while everybody else there goes on. To
change the number of workers takes many steps, and others may act between any two of them. What the pool will
be set to once all orders are carried out is known from the start. -/
namespace BatchJob.Worker
open Work

/-- Steps one after the other, as long as each is possible. -/
def runs? {α β : Type} (step? : α → β → Option α) : α → List β → Option α
  | x, [] => some x
  | x, e :: es => (step? x e).bind fun y => runs? step? y es

section Runs

variable {α β : Type} {step? : α → β → Option α} {x y z : α} {es es' : List β}

theorem runs?_append (h : runs? step? x es = some y) (h' : runs? step? y es' = some z) :
    runs? step? x (es ++ es') = some z := by
  induction es generalizing x with
  | nil =>
    cases h
    exact h'
  | cons e es ih =>
    obtain ⟨x₁, hx, hrest⟩ := Option.bind_eq_some_iff.mp h
    simp only [List.cons_append, runs?, hx, Option.bind_some]
    exact ih hrest

theorem exists_runs?_of_append (h : runs? step? x (es ++ es') = some z) :
    ∃ y, runs? step? x es = some y ∧ runs? step? y es' = some z := by
  induction es generalizing x with
  | nil => exact ⟨x, rfl, h⟩
  | cons e es ih =>
    obtain ⟨x₁, hx, hrest⟩ := Option.bind_eq_some_iff.mp h
    obtain ⟨y, hy, hz⟩ := ih hrest
    exact ⟨y, by simp [runs?, hx, hy], hz⟩

theorem runs?_induction {motive : α → Prop} {allowed : β → Prop}
    (step : ∀ x e y, allowed e → motive x → step? x e = some y → motive y) (h : runs? step? x es = some y)
    (ha : ∀ e ∈ es, allowed e) (hx : motive x) : motive y := by
  induction es generalizing x with
  | nil =>
    cases h
    exact hx
  | cons e es ih =>
    obtain ⟨x₁, h₁, hrest⟩ := Option.bind_eq_some_iff.mp h
    exact ih hrest (fun u hu => ha u (List.mem_cons_of_mem _ hu))
      (step x e x₁ (ha e (List.mem_cons_self ..)) hx h₁)

end Runs

inductive Order where
  | discard
  | pause
  | resume
  | workers (count : Nat)
  deriving DecidableEq, Repr

/-- What the clients of a pool have set. -/
structure Setting where
  closed : Bool
  discarding : Bool
  shut : Bool
  target : Int
  deriving DecidableEq, Repr

def Pool.setting (p : Pool) : Setting := ⟨p.gate.closed, p.discarding, p.shut, p.target⟩

namespace Order

def apply : Order → Pool → Pool
  | discard, p => p.discard
  | pause, p => p.pause
  | resume, p => p.resume
  | workers _, p => p

/-- The change of the number of workers that begins, unless the pool refuses it. -/
def resize (p : Pool) : Order → Resize
  | workers count =>
    match p.resizable count with
    | .ok () => .asked count
    | .error _ => .done
  | _ => .done

/-- An order that nobody interferes with. -/
def obey (p : Pool) : Order → Pool
  | workers count => (p.setWorkers count).2
  | o => o.apply p

/-- What an order is about to set. -/
def settle (x : Setting) : Order → Setting
  | discard => { x with discarding := true }
  | pause => { x with closed := true }
  | resume => { x with closed := false }
  | workers count => if count = 0 ∨ x.shut then x else { x with target := count }

end Order

/-- The target that a change of the number of workers leads to. -/
def Resize.settle (x : Setting) : Resize → Setting
  | asked count => { x with target := count }
  | retiring n => { x with target := x.target - n }
  | reclaiming n => { x with target := x.target + n }
  | spawning n => { x with target := x.target + n }
  | done => x

/-- `resize` is the change of the number of workers that is under way, and `orders` come after it. -/
structure Shift where
  floor : Floor
  resize : Resize
  orders : List Order

/-- New orders are given when no other is left. -/
inductive Turn where
  | give (orders : List Order)
  | proceed
  | deed (d : Deed)

def Floor.onPool (f : Floor) (g : Pool → Pool) : Floor := { f with pool := g f.pool }

namespace Shift

def opened (p : Pool) : Shift := ⟨.opened p, .done, []⟩

def pool (s : Shift) : Pool := s.floor.pool

def isIdle (s : Shift) : Bool := s.resize = .done && s.orders.isEmpty

/-- The next step of what was ordered. -/
def proceed? (s : Shift) : Option Shift :=
  if s.resize = .done then
    match s.orders with
    | [] => none
    | o :: rest => some ⟨s.floor.onPool o.apply, o.resize s.pool, rest⟩
  else
    some { s with
      floor := s.floor.onPool fun p => (s.resize.step p).2
      resize := (s.resize.step s.pool).1 }

def step? (s : Shift) : Turn → Option Shift
  | .give orders => if s.isIdle then some { s with orders := orders } else none
  | .proceed => s.proceed?
  | .deed d => (s.floor.step? d).map fun f => { s with floor := f }

def run? (s : Shift) (ts : List Turn) : Option Shift := runs? step? s ts

@[simp] theorem run?_nil (s : Shift) : s.run? [] = some s := rfl

@[simp] theorem run?_cons (s : Shift) (t : Turn) (ts : List Turn) :
    s.run? (t :: ts) = (s.step? t).bind fun s' => s'.run? ts := rfl

/-- What the pool is set to when all orders are carried out. -/
def settled (s : Shift) : Setting := s.orders.foldl Order.settle (s.resize.settle s.pool.setting)

end Shift

namespace Shift
open Pool

variable {s s' s'' : Shift} {t : Turn} {ts us : List Turn}

theorem isIdle_iff : s.isIdle = true ↔ s.resize = .done ∧ s.orders = [] := by simp [isIdle]

theorem proceed?_cases (h : s.proceed? = some s') :
    (∃ o rest, s.resize = .done ∧ s.orders = o :: rest ∧
      s' = ⟨s.floor.onPool o.apply, o.resize s.pool, rest⟩) ∨
    (s.resize ≠ .done ∧
      s' = ⟨s.floor.onPool fun p => (s.resize.step p).2, (s.resize.step s.pool).1, s.orders⟩) := by
  rw [proceed?] at h
  split at h
  · rename_i hr
    cases ho : s.orders with
    | nil => simp [ho] at h
    | cons o rest =>
      rw [ho] at h
      cases h
      exact Or.inl ⟨o, rest, hr, rfl, rfl⟩
  · rename_i hr
    cases h
    exact Or.inr ⟨hr, rfl⟩

theorem step?_deed {d : Deed} (h : s.step? (.deed d) = some s') :
    s.floor.step? d = some s'.floor ∧ s'.resize = s.resize ∧ s'.orders = s.orders := by
  obtain ⟨f, hf, rfl⟩ := Option.map_eq_some_iff.mp h
  exact ⟨hf, rfl, rfl⟩

theorem step?_of_command (f : Floor) {a : Act} {g : Pool → Pool} (ha : f.allows a = true)
    (hn : f.pool.note? a = none) (hg : f.pool.perform? a = some (g f.pool)) :
    f.step? (.act a) = some (f.onPool g) := by
  simp [Floor.step?, ha, Floor.perform?, hg, hn, Floor.onPool]

theorem floor_proceed? (h : s.proceed? = some s') : ∃ ds, s.floor.run? ds = some s'.floor := by
  obtain ⟨o, rest, -, -, rfl⟩ | ⟨-, rfl⟩ := proceed?_cases h
  · have hact : ∀ a, s.floor.step? (.act a) = some (s.floor.onPool o.apply) →
        ∃ ds, s.floor.run? ds = some (s.floor.onPool o.apply) := fun a ha =>
      ⟨[.act a], by simp [Floor.run?, ha]⟩
    cases o with
    | discard => exact hact .discard (step?_of_command _ rfl rfl rfl)
    | pause => exact hact .pause (step?_of_command _ rfl rfl rfl)
    | resume => exact hact .resume (step?_of_command _ rfl rfl rfl)
    | workers count => exact ⟨[], rfl⟩
  · refine ⟨[.act (.resize s.resize)], ?_⟩
    have hstep := step?_of_command s.floor (a := .resize s.resize)
      (g := fun p => (s.resize.step p).2) rfl rfl rfl
    simp [Floor.run?, hstep]

theorem floor_step? (h : s.step? t = some s') : ∃ ds, s.floor.run? ds = some s'.floor := by
  cases t with
  | give orders =>
    simp only [step?] at h
    split at h <;> cases h
    exact ⟨[], rfl⟩
  | proceed => exact floor_proceed? h
  | deed d => exact ⟨[d], by simp [Floor.run?, (step?_deed h).1]⟩

theorem run?_deeds {ds : List Deed} {g : Floor} (h : s.floor.run? ds = some g) :
    s.run? (ds.map .deed) = some { s with floor := g } := by
  induction ds generalizing s with
  | nil =>
    cases h
    rfl
  | cons d ds ih =>
    obtain ⟨f, hf, hrest⟩ := Option.bind_eq_some_iff.mp h
    simp only [List.map_cons, run?_cons, Shift.step?, hf, Option.map_some, Option.bind_some]
    exact ih (s := { s with floor := f }) hrest

end Shift

namespace Pool

variable {p q : Pool} {a : Act} {said : Act → Prop}

/-- Nobody changes what is set at a pool but those who say so, each in its own part. -/
structure Heeds (said : Act → Prop) (p q : Pool) : Prop where
  depth : q.depth = p.depth
  closed : ¬ said .pause → ¬ said .resume → q.gate.closed = p.gate.closed
  discarding : ¬ said .discard → q.discarding = p.discarding
  shut : ¬ said .shut → q.shut = p.shut
  accepting : ¬ said .disconnect → q.accepting = p.accepting
  target : (∀ r, ¬ said (.resize r)) → q.target = p.target

theorem Heeds.of_same (hs : q.setting = p.setting) (ha : q.accepting = p.accepting) (hd : q.depth = p.depth) :
    Heeds said p q := by
  simp only [setting, Setting.mk.injEq] at hs
  obtain ⟨hclosed, hdiscarding, hshut, htarget⟩ := hs
  exact ⟨hd, fun _ _ => hclosed, fun _ => hdiscarding, fun _ => hshut, fun _ => ha, fun _ => htarget⟩

theorem Heeds.mono {more : Act → Prop} (h : Heeds said p q) (hm : ∀ a, said a → more a) : Heeds more p q where
  depth := h.depth
  closed hp hr := h.closed (fun hs => hp (hm _ hs)) fun hs => hr (hm _ hs)
  discarding hn := h.discarding fun hs => hn (hm _ hs)
  shut hn := h.shut fun hs => hn (hm _ hs)
  accepting hn := h.accepting fun hs => hn (hm _ hs)
  target hn := h.target fun r hs => hn r (hm _ hs)

theorem heeds_move? {i : Nat} {s : Station} {m : Move} (h : p.move? i s m = some q) : Heeds said p q := by
  cases moved_of_move? h with
  | start =>
    rw [start]
    split <;> exact .of_same rfl rfl rfl
  | _ => exact .of_same rfl rfl rfl

theorem heeds_step (r : Resize) (hr : said (.resize r)) (p : Pool) : Heeds said p (r.step p).2 := by
  have hresize : ∀ q : Pool, q.depth = p.depth → q.gate = p.gate → q.discarding = p.discarding →
      q.shut = p.shut → q.accepting = p.accepting → Heeds said p q := fun q hd hg hdi hs ha =>
    ⟨hd, fun _ _ => by rw [hg], fun _ => hdi, fun _ => hs, fun _ => ha, fun hn => absurd hr (hn r)⟩
  cases r with
  | asked count =>
    simp only [Resize.step]
    split <;> exact .of_same rfl rfl rfl
  | retiring n => cases n <;> exact hresize _ rfl rfl rfl rfl rfl
  | reclaiming n =>
    cases n with
    | zero => exact .of_same rfl rfl rfl
    | succ n =>
      simp only [Resize.step]
      split <;> exact hresize _ rfl rfl rfl rfl rfl
  | spawning n => cases n <;> exact hresize _ rfl rfl rfl rfl rfl
  | done => exact .of_same rfl rfl rfl

theorem heeds_perform? (h : p.perform? a = some q) : Heeds (a = ·) p q := by
  cases a with
  | proceed serial =>
    simp only [perform?, admit?] at h
    split at h
    · cases h
    · split at h <;> cases h
      exact .of_same rfl rfl rfl
  | giveUp serial =>
    simp only [perform?, giveUp?] at h
    split at h <;> cases h
    exact .of_same rfl rfl rfl
  | drop =>
    simp only [perform?, drop?] at h
    split at h <;> cases h
    exact .of_same rfl rfl rfl
  | resize r =>
    cases h
    exact heeds_step r rfl p
  | move hand m =>
    simp only [perform?] at h
    split at h
    · exact heeds_move? h
    · cases h
  | fetch serial =>
    simp only [perform?] at h
    split at h
    · cases h
      rw [fetch]
      split <;> exact .of_same rfl rfl rfl
    · cases h
  | receive =>
    cases h
    rw [receive]
    split <;> exact .of_same rfl rfl rfl
  | _ =>
    cases h
    constructor <;> simp [announce, discard, pause, resume, count]

end Pool

namespace Floor
open Pool

variable {f g : Floor} {d : Deed}

theorem step?_cases (h : f.step? d = some g) :
    (g.pool = f.pool ∧ g.journal = f.journal) ∨
    ∃ a, (d = .act a ∨ ∃ u, a = .announce u) ∧ f.pool.perform? a = some g.pool ∧
      g.journal = f.journal ++ (f.pool.note? a).toList := by
  cases d with
  | act a =>
    simp only [step?] at h
    split at h
    · obtain ⟨q, hq, rfl⟩ := Option.map_eq_some_iff.mp h
      exact Or.inr ⟨a, Or.inl rfl, hq, rfl⟩
    · cases h
  | announce u =>
    simp only [step?] at h
    split at h
    · obtain ⟨q, hq, rfl⟩ := Option.map_eq_some_iff.mp h
      exact Or.inr ⟨.announce u, Or.inr ⟨u, rfl⟩, hq, rfl⟩
    · cases h
  | _ =>
    simp only [step?] at h
    split at h <;> cases h
    exact Or.inl ⟨rfl, rfl⟩

theorem perform?_of_step? {a : Act} (h : f.step? (.act a) = some g) : f.pool.perform? a = some g.pool := by
  simp only [step?] at h
  split at h
  · obtain ⟨q, hq, rfl⟩ := Option.map_eq_some_iff.mp h
    exact hq
  · cases h

theorem run?_eq (f : Floor) (ds : List Deed) : f.run? ds = runs? step? f ds := by
  induction ds generalizing f with
  | nil => rfl
  | cons d ds ih => simp only [run?, runs?, ih]

/-- What every deed of a kind keeps, everybody keeps who does nothing else. -/
theorem run?_induction {motive : Floor → Prop} {allowed : Deed → Prop} {ds : List Deed}
    (step : ∀ f d g, allowed d → motive f → f.step? d = some g → motive g) (h : f.run? ds = some g)
    (ha : ∀ d ∈ ds, allowed d) (hf : motive f) : motive g :=
  runs?_induction step (run?_eq f ds ▸ h) ha hf

theorem heeds_step? (h : f.step? d = some g) : Heeds (d = .act ·) f.pool g.pool := by
  obtain ⟨hp, -⟩ | ⟨a, ha, hq, -⟩ := step?_cases h
  · rw [hp]
    exact .of_same rfl rfl rfl
  · have hh := heeds_perform? hq
    rcases ha with rfl | ⟨u, rfl⟩
    · exact hh.mono fun b hb => hb ▸ rfl
    · exact ⟨hh.depth, fun _ _ => hh.closed nofun nofun, fun _ => hh.discarding nofun, fun _ => hh.shut nofun,
        fun _ => hh.accepting nofun, fun _ => hh.target nofun⟩

end Floor

/-- What clients demand of a pool; everything else is done by the workers, and by those who submit and ask for
answers. -/
def Act.isCommand : Act → Bool
  | .drop | .discard | .pause | .resume | .shut | .disconnect | .resize _ => true
  | _ => false

/-- Nobody commands. -/
def Deed.attends : Deed → Bool
  | .act a => !a.isCommand
  | _ => true

theorem Floor.setting_step? {f g : Floor} {d : Deed} (hd : d.attends = true)
    (h : f.step? d = some g) : g.pool.setting = f.pool.setting := by
  have hno : ∀ a : Act, a.isCommand = true → d ≠ .act a := by
    rintro a ha rfl
    simp [Deed.attends, ha] at hd
  have hh := heeds_step? h
  simp only [Pool.setting, Setting.mk.injEq]
  exact ⟨hh.closed (hno _ rfl) (hno _ rfl), hh.discarding (hno _ rfl), hh.shut (hno _ rfl),
    hh.target fun r => hno _ rfl⟩

theorem Floor.setting_run? {f g : Floor} {ds : List Deed} (hd : ∀ d ∈ ds, d.attends = true)
    (h : f.run? ds = some g) : g.pool.setting = f.pool.setting :=
  run?_induction (motive := fun x => x.pool.setting = f.pool.setting)
    (fun _ d _ (ha : d.attends = true) hx hy => (setting_step? ha hy).trans hx) h hd rfl

theorem Resize.settle_step (r : Resize) (p : Pool) :
    (r.step p).1.settle (r.step p).2.setting = r.settle p.setting := by
  cases r with
  | asked count =>
    simp only [step]
    split
    · simp only [settle, Pool.setting, Setting.mk.injEq, true_and]
      omega
    · simp only [settle, Pool.setting, Setting.mk.injEq, true_and]
      omega
  | retiring n =>
    cases n with
    | zero => simp [step, settle]
    | succ n =>
      simp only [step, settle, Pool.setting, Setting.mk.injEq, true_and]
      omega
  | reclaiming n =>
    cases n with
    | zero => simp [step, settle]
    | succ n =>
      simp only [step]
      split
      · rfl
      · simp only [settle, Pool.setting, Setting.mk.injEq, true_and]
        omega
  | spawning n =>
    cases n with
    | zero => simp [step, settle]
    | succ n =>
      simp only [step, settle, Pool.setting, Pool.spawn, Setting.mk.injEq, true_and]
      omega
  | done => rfl

theorem Order.settle_apply (o : Order) (p : Pool) :
    (o.resize p).settle (o.apply p).setting = o.settle p.setting := by
  cases o with
  | workers count =>
    simp only [resize, Pool.resizable, apply, settle, Pool.setting]
    by_cases hc : count = 0
    · simp [hc, Resize.settle]
    · by_cases hs : p.shut = true
      · simp [hc, hs, Resize.settle]
      · simp [hc, hs, Resize.settle]
  | _ => rfl

namespace Shift

variable {s s' : Shift} {t : Turn} {ts : List Turn}

theorem settled_proceed? (h : s.proceed? = some s') : s'.settled = s.settled := by
  obtain ⟨o, rest, hr, ho, rfl⟩ | ⟨-, rfl⟩ := proceed?_cases h
  · simp only [settled, ho, hr, List.foldl_cons]
    exact congrArg (rest.foldl Order.settle) (o.settle_apply s.pool)
  · exact congrArg (s.orders.foldl Order.settle) (s.resize.settle_step s.pool)

theorem settled_deed {d : Deed} (hd : d.attends = true) (h : s.step? (.deed d) = some s') :
    s'.settled = s.settled := by
  obtain ⟨hf, hr, ho⟩ := step?_deed h
  have hsame : s'.pool.setting = s.pool.setting := Floor.setting_step? hd hf
  rw [settled, settled, hr, ho, hsame]

theorem settled_of_isIdle (h : s.isIdle = true) : s.settled = s.pool.setting := by
  obtain ⟨hr, ho⟩ := isIdle_iff.mp h
  rw [settled, hr, ho]
  rfl

theorem settled_give {orders : List Order} (h : s.step? (.give orders) = some s') :
    s.isIdle = true ∧ s'.settled = orders.foldl Order.settle s.settled := by
  simp only [step?] at h
  split at h
  · rename_i hidle
    cases h
    refine ⟨hidle, ?_⟩
    rw [settled_of_isIdle hidle]
    obtain ⟨hr, -⟩ := isIdle_iff.mp hidle
    rw [settled, hr]
    rfl
  · cases h

theorem size_step {r : Resize} (hr : r ≠ .done) (p : Pool) :
    (r.step p).1.size (r.step p).2 < r.size p := by
  cases r with
  | asked count =>
    simp only [Resize.step]
    split
    · simp only [Resize.size]
      omega
    · simp only [Resize.size]
      omega
  | retiring n => cases n <;> simp [Resize.step, Resize.size]
  | reclaiming n =>
    cases n with
    | zero => simp [Resize.step, Resize.size]
    | succ n =>
      simp only [Resize.step]
      split <;> simp [Resize.size]
  | spawning n => cases n <;> simp [Resize.step, Resize.size]
  | done => exact absurd rfl hr

theorem finish_done (n : Nat) (p : Pool) : Resize.done.finish n p = p := by
  induction n with
  | zero => rfl
  | succ n ih => exact ih

theorem run?_resize {n : Nat} (r : Resize) (f : Floor) (orders : List Order)
    (hn : r.size f.pool ≤ n) :
    ∃ k, (⟨f, r, orders⟩ : Shift).run? (List.replicate k .proceed) =
      some ⟨f.onPool (r.finish n), .done, orders⟩ := by
  induction n generalizing r f with
  | zero =>
    have hr : r = .done := by
      cases r with
      | done => rfl
      | _ => simp [Resize.size] at hn
    subst hr
    exact ⟨0, rfl⟩
  | succ n ih =>
    by_cases hr : r = .done
    · subst hr
      exact ⟨0, by simp [Floor.onPool, finish_done]⟩
    · obtain ⟨k, hk⟩ := ih (r.step f.pool).1 (f.onPool fun p => (r.step p).2) (by
        have := size_step hr f.pool
        simp only [Floor.onPool]
        omega)
      refine ⟨k + 1, ?_⟩
      simp only [List.replicate_succ, run?_cons, step?, proceed?, hr, if_false, Option.bind_some]
      exact hk

theorem run?_order (o : Order) (f : Floor) (rest : List Order) :
    ∃ k, (⟨f, .done, o :: rest⟩ : Shift).run? (List.replicate k .proceed) =
      some ⟨f.onPool o.obey, .done, rest⟩ := by
  cases o with
  | workers count =>
    cases hc : f.pool.resizable count with
    | error e =>
      refine ⟨1, ?_⟩
      simp [step?, proceed?, Order.resize, Order.apply, Order.obey, Floor.onPool, pool,
        Pool.setWorkers, hc]
    | ok u =>
      obtain ⟨k, hk⟩ := run?_resize (.asked count) f rest le_rfl
      refine ⟨k + 1, ?_⟩
      simp only [List.replicate_succ, run?_cons, step?, proceed?, if_true, Option.bind_some, Order.resize, pool,
        hc]
      simpa [Floor.onPool, Order.apply, Order.obey, Pool.setWorkers, hc] using hk
  | _ => exact ⟨1, rfl⟩

/-- All orders are carried out in the end, and do then what they do at one go. -/
theorem run?_orders (orders : List Order) (f : Floor) :
    ∃ k, (⟨f, .done, orders⟩ : Shift).run? (List.replicate k .proceed) =
      some ⟨f.onPool fun p => orders.foldl Order.obey p, .done, []⟩ := by
  induction orders generalizing f with
  | nil => exact ⟨0, rfl⟩
  | cons o rest ih =>
    obtain ⟨k, hk⟩ := run?_order o f rest
    obtain ⟨l, hl⟩ := ih (f.onPool o.obey)
    refine ⟨k + l, ?_⟩
    rw [List.replicate_add]
    exact runs?_append hk hl

end Shift
end BatchJob.Worker
