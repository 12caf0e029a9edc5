import BatchJob.Proofs.Worker.Caller

/-! Two callers who change the number of workers of a pool at the same time. The one who reads first goes by what was
there at the outset; the other goes by what the first one has made of it so far, and does not see the rest. What
there should be in the end is what both asked for, less what the second one read. -/
namespace BatchJob.Worker
open Work

/-- The pool goes on: nobody discards or closes it, and nobody but the callers changes the number of workers. -/
def Act.keepsOn : Act → Bool
  | .drop | .discard | .shut | .disconnect | .resize _ => false
  | _ => true

def Deed.keepsOn : Deed → Bool
  | .act a => a.keepsOn
  | _ => true

theorem Deed.spares_of_keepsOn {d : Deed} (h : d.keepsOn = true) : d.spares = true := by
  cases d with
  | act a => cases a <;> first | rfl | cases h
  | _ => rfl

/-- A running pool has as many workers as it should have, apart from those for whom a token lies ready. -/
structure Floor.Running (f : Floor) : Prop where
  sound : f.pool.Sound f.journal
  keeping : f.pool.discarding = false
  accepting : f.pool.accepting = true
  level : f.pool.staff = f.pool.target
  manned : 1 ≤ f.pool.target

structure Overlap where
  floor : Floor
  one : Caller
  other : Caller

/-- Who makes the next step. -/
inductive Overlap.Turn where
  | one
  | other
  | deed (d : Deed)

namespace Overlap
open Pool

def pool (x : Overlap) : Pool := x.floor.pool

def begun (f : Floor) (n m : Nat) : Overlap := ⟨f, .ask n, .ask m⟩

def step? (x : Overlap) : Turn → Option Overlap
  | .one => some ⟨{ x.floor with pool := (x.one.step x.pool).2 }, (x.one.step x.pool).1, x.other⟩
  | .other => some ⟨{ x.floor with pool := (x.other.step x.pool).2 }, x.one, (x.other.step x.pool).1⟩
  | .deed d => (x.floor.step? d).map fun f => ⟨f, x.one, x.other⟩

def run? : Overlap → List Turn → Option Overlap := runs? step?

def Turn.keepsOn : Turn → Bool
  | .deed d => d.keepsOn
  | _ => true

def isOver (x : Overlap) : Bool := x.one.calling = .returned ∧ x.other.calling = .returned

/-- The same, with the callers the other way round. -/
def swap (x : Overlap) : Overlap := ⟨x.floor, x.other, x.one⟩

variable {f : Floor} {n m : Nat} {start r : Int} {x y z : Overlap} {e : Turn} {es : List Turn} {a b : Caller}

/-- A call goes by what it read, and is on its way there. -/
structure OnWay (c : Caller) : Prop where
  begun : c.calling = .begun ↔ c.current = none
  done : ∀ current, c.current = some current → Between 0 (c.count - current) c.done

/-- The first of two callers read what was there at the outset, and the second what the first had made of it. -/
structure After (start : Int) (a b : Caller) : Prop where
  first : a.current = some start
  second : ∀ r, b.current = some r → Between start (start + a.done) r

/-- What holds of a running pool while two callers change the number of its workers. -/
structure Holds (start : Int) (x : Overlap) : Prop where
  sound : x.pool.Sound x.floor.journal
  keeping : x.pool.discarding = false
  accepting : x.pool.accepting = true
  level : x.pool.staff = x.pool.target + x.one.calling.lead + x.other.calling.lead
  target : x.pool.target = start + x.one.done + x.other.done
  one : OnWay x.one
  other : OnWay x.other
  reading : (x.one.current = none ∧ x.other.current = none) ∨ After start x.one x.other ∨ After start x.other x.one

theorem Holds.swap (h : Holds start x) : Holds start x.swap where
  sound := h.sound
  keeping := h.keeping
  accepting := h.accepting
  level := by
    have := h.level
    simp only [Overlap.swap, pool] at this ⊢
    omega
  target := by
    have := h.target
    simp only [Overlap.swap, pool] at this ⊢
    omega
  one := h.other
  other := h.one
  reading := h.reading.elim (fun hr => Or.inl ⟨hr.2, hr.1⟩) fun hr => Or.inr hr.symm

theorem onWay_ask (n : Nat) : OnWay (.ask n) := ⟨by simp [Caller.ask], by simp [Caller.ask]⟩

theorem onWay_read (c : Caller) (target : Int) : OnWay (c.read target) where
  begun := by simp [c.calling_read_ne target]
  done current h := by
    rw [c.done_read, Between]
    omega

theorem done_of_begun {c : Caller} (hc : c.current = none) : c.done = 0 := by simp [Caller.done, hc]

theorem OnWay.goesBy {c c' : Caller} {p p' : Pool} (h : OnWay c) (hb : c.calling ≠ .begun)
    (hcount : c'.count = c.count) (hgo : Caller.GoesBy c c' p p') :
    OnWay c' ∧ p'.target - c'.done = p.target - c.done ∧ Between 0 c'.done c.done := by
  obtain ⟨current, hcurrent⟩ := Option.ne_none_iff_exists'.mp fun he => hb (h.begun.mpr he)
  have hcurrent' : c'.current = some current := hgo.current.trans hcurrent
  have hdone := h.done current hcurrent
  have hleft := hgo.left
  have htarget := hgo.target
  simp only [Caller.done_of_current hcurrent, Between] at hdone
  simp only [Between] at hleft
  refine ⟨⟨by simp [hgo.begun, hcurrent'], fun r hr => ?_⟩, ?_, ?_⟩
  · obtain rfl : current = r := Option.some.inj (hcurrent'.symm.trans hr)
    simp only [Caller.done_of_current hcurrent', hcount, Between]
    omega
  · simp only [Caller.done_of_current hcurrent', Caller.done_of_current hcurrent, hcount]
    omega
  · simp only [Caller.done_of_current hcurrent', Caller.done_of_current hcurrent, hcount, Between]
    omega

theorem OnWay.step (h : OnWay a) (p : Pool) : OnWay (a.step p).1 ∧
    (a.step p).2.target - (a.step p).1.done = p.target - a.done ∧ Between 0 (a.step p).1.done a.done := by
  by_cases hb : a.calling = .begun
  · rw [Caller.step_of_begun hb, done_of_begun (h.begun.mp hb)]
    simp only [Caller.done_read]
    exact ⟨onWay_read a p.target, trivial, by simp [Between]⟩
  · exact h.goesBy hb (Caller.count_step ..) (Caller.goesBy_step hb p)

theorem OnWay.current_step (h : OnWay a) (p : Pool) (hr : a.current = some r) : (a.step p).1.current = some r := by
  refine (Caller.goesBy_step (fun hb => ?_) p).current.trans hr
  rw [h.begun.mp hb] at hr
  cases hr

theorem Holds.reading_step (h : Holds start x) :
    ((x.one.step x.pool).1.current = none ∧ x.other.current = none) ∨ After start (x.one.step x.pool).1 x.other ∨
      After start x.other (x.one.step x.pool).1 := by
  obtain ⟨-, -, hdone⟩ := h.one.step x.pool
  have htarget := h.target
  by_cases hb : x.one.calling = .begun
  · have hnone : x.one.current = none := h.one.begun.mp hb
    rw [Caller.step_of_begun hb]
    rw [done_of_begun hnone] at htarget
    rcases h.reading with ⟨-, hnone'⟩ | hfirst | hsecond
    · rw [done_of_begun hnone'] at htarget
      refine Or.inr (Or.inl ⟨?_, fun r hr => ?_⟩)
      · rw [Caller.current_read, htarget]
        simp
      · rw [hnone'] at hr
        cases hr
    · rw [hfirst.first] at hnone
      cases hnone
    · refine Or.inr (Or.inr ⟨hsecond.first, fun r hr => ?_⟩)
      rw [Caller.current_read, Option.some.injEq] at hr
      simp only [Between]
      omega
  · have hsame := (Caller.goesBy_step hb x.pool).current
    rcases h.reading with ⟨hnone, -⟩ | hfirst | hsecond
    · exact absurd (h.one.begun.mpr hnone) hb
    · refine Or.inr (Or.inl ⟨hsame.trans hfirst.first, fun r hr => ?_⟩)
      have hread := hfirst.second r hr
      simp only [Between] at hread hdone ⊢
      omega
    · exact Or.inr (Or.inr ⟨hsecond.first, fun r hr => hsecond.second r (hsame ▸ hr)⟩)

theorem Holds.one_step (h : Holds start x) (hx : x.step? .one = some y) : Holds start y := by
  obtain rfl := Option.some.inj hx
  obtain ⟨hdiscarding, haccepting⟩ := x.one.heeds_step x.pool
  obtain ⟨honway, hmoved, -⟩ := h.one.step x.pool
  refine ⟨Caller.sound_step h.sound x.one, hdiscarding.trans h.keeping, haccepting.trans h.accepting, ?_, ?_, honway,
    h.other, h.reading_step⟩
  · have hlevel := h.level
    have hstaff := x.one.staff_step x.pool
    show (x.one.step x.pool).2.staff =
      (x.one.step x.pool).2.target + (x.one.step x.pool).1.calling.lead + x.other.calling.lead
    omega
  · have htarget := h.target
    show (x.one.step x.pool).2.target = start + (x.one.step x.pool).1.done + x.other.done
    omega

theorem Holds.deed {d : Deed} (h : Holds start x) (hd : d.keepsOn = true) (hx : x.step? (.deed d) = some y) :
    Holds start y := by
  obtain ⟨g, hg, rfl⟩ := Option.map_eq_some_iff.mp hx
  have hno {a : Act} (ha : a.keepsOn = false) : d ≠ .act a := by
    rintro rfl
    exact absurd hd (by simp [Deed.keepsOn, ha])
  have hh := Floor.heeds_step? hg
  have htarget : g.pool.target = x.pool.target := hh.target fun r => hno rfl
  have haccepting : g.pool.accepting = x.pool.accepting := hh.accepting (hno rfl)
  obtain ⟨-, hstaff⟩ := Floor.staff_step? h.sound h.keeping (Deed.spares_of_keepsOn hd) hg
  have hsame : g.pool.staff = x.pool.staff := by
    refine hstaff.resolve_right fun he => ?_
    have hclosed := (isExhausted_iff.mp he.pool).2
    rw [← pool, h.accepting] at hclosed
    cases hclosed
  refine ⟨Floor.sound_step? h.sound hg, (hh.discarding (hno rfl)).trans h.keeping, haccepting.trans h.accepting, ?_,
    ?_, h.one, h.other, h.reading⟩
  · exact (hsame.trans h.level).trans (by rw [← htarget]; rfl)
  · exact htarget.trans h.target

theorem Holds.step? (h : Holds start x) (he : e.keepsOn = true) (hx : x.step? e = some y) : Holds start y := by
  cases e with
  | one => exact h.one_step hx
  | other =>
    obtain rfl := Option.some.inj hx
    exact (h.swap.one_step rfl).swap
  | deed d => exact h.deed he hx

theorem holds_begun (hf : f.Running) (n m : Nat) : Holds f.pool.target (begun f n m) where
  sound := hf.sound
  keeping := hf.keeping
  accepting := hf.accepting
  level := by
    show f.pool.staff = f.pool.target + 0 + 0
    have := hf.level
    omega
  target := by simp [begun, pool]
  one := onWay_ask n
  other := onWay_ask m
  reading := Or.inl ⟨rfl, rfl⟩

/-- What was asked for stays, and what was read. -/
structure Later (x y : Overlap) : Prop where
  count : y.one.count = x.one.count
  count' : y.other.count = x.other.count
  one : ∀ r, x.one.current = some r → y.one.current = some r
  other : ∀ r, x.other.current = some r → y.other.current = some r

theorem Later.trans (h : Later x y) (h' : Later y z) : Later x z :=
  ⟨h'.count.trans h.count, h'.count'.trans h.count', fun r hr => h'.one r (h.one r hr),
    fun r hr => h'.other r (h.other r hr)⟩

theorem Holds.later_step? (h : Holds start x) (hx : x.step? e = some y) : Later x y := by
  cases e with
  | one =>
    obtain rfl := Option.some.inj hx
    exact ⟨Caller.count_step .., rfl, fun _ => h.one.current_step _, fun _ => id⟩
  | other =>
    obtain rfl := Option.some.inj hx
    exact ⟨rfl, Caller.count_step .., fun _ => id, fun _ => h.other.current_step _⟩
  | deed d =>
    obtain ⟨g, -, rfl⟩ := Option.map_eq_some_iff.mp hx
    exact ⟨rfl, rfl, fun _ => id, fun _ => id⟩

theorem Holds.run? (h : Holds start x) (he : ∀ e ∈ es, e.keepsOn = true) (hx : x.run? es = some y) :
    Holds start y ∧ Later x y :=
  runs?_induction (motive := fun z => Holds start z ∧ Later x z)
    (fun _ e _ (he : e.keepsOn = true) ⟨hz, hlater⟩ hy => ⟨hz.step? he hy, hlater.trans (hz.later_step? hy)⟩) hx he
    ⟨h, rfl, rfl, fun _ => id, fun _ => id⟩

/-- How many workers there should be never falls below one while both are on their way, if it does not in the end. -/
theorem Holds.manned (h : Holds start x) (hstart : 1 ≤ start) (hone : 0 < x.one.count) (hother : 0 < x.other.count)
    (hr : ∀ r, After start x.one x.other ∧ x.other.current = some r ∨
      After start x.other x.one ∧ x.one.current = some r → r < x.one.count + x.other.count) :
    1 ≤ x.pool.target := by
  have htarget := h.target
  have hsafe {a b : Caller} (ha : OnWay a) (hb : OnWay b) (hab : After start a b) (hna : 0 < a.count)
      (hnb : 0 < b.count) (hlt : ∀ r, b.current = some r → r < a.count + b.count) : 1 ≤ start + a.done + b.done := by
    have hdone := ha.done start hab.first
    simp only [Between] at hdone
    cases hcurrent : b.current with
    | none =>
      rw [done_of_begun hcurrent]
      omega
    | some r =>
      have hread := hab.second r hcurrent
      have hdone' := hb.done r hcurrent
      have hless := hlt r hcurrent
      simp only [Between] at hread hdone'
      omega
  rcases h.reading with ⟨hnone, hnone'⟩ | hab | hab
  · rw [htarget, done_of_begun hnone, done_of_begun hnone']
    omega
  · rw [htarget]
    exact hsafe h.one h.other hab hone hother fun r hcurrent => hr r (Or.inl ⟨hab, hcurrent⟩)
  · rw [htarget, Int.add_right_comm]
    refine hsafe h.other h.one hab hother hone fun r hcurrent => ?_
    have := hr r (Or.inr ⟨hab, hcurrent⟩)
    omega

/-- One of two callers read what was there at the outset, and the other `r`, between this and what the first one
asked for. -/
def Reads (start r : Int) (x : Overlap) : Prop :=
  (x.one.current = some start ∧ x.other.current = some r ∧ Between start x.one.count r) ∨
    (x.other.current = some start ∧ x.one.current = some r ∧ Between start x.other.count r)

theorem Reads.unique {s : Int} (h : Reads start r x)
    (hs : x.one.current = some start ∧ x.other.current = some s ∨
      x.other.current = some start ∧ x.one.current = some s) : s = r := by
  rcases h with ⟨hstart, hr, -⟩ | ⟨hstart, hr, -⟩
  · rcases hs with ⟨-, hs⟩ | ⟨hs', hs⟩
    · exact Option.some.inj (hs.symm.trans hr)
    · exact (Option.some.inj (hs.symm.trans hstart)).trans (Option.some.inj (hs'.symm.trans hr))
  · rcases hs with ⟨hs', hs⟩ | ⟨-, hs⟩
    · exact (Option.some.inj (hs.symm.trans hstart)).trans (Option.some.inj (hs'.symm.trans hr))
    · exact Option.some.inj (hs.symm.trans hr)

theorem done_of_returned {c : Caller} (hc : c.calling = .returned) (hr : c.current = some r) :
    c.done = c.count - r := by
  simp [Caller.done_of_current hr, hc, Calling.left]

theorem isOver_iff : x.isOver = true ↔ x.one.calling = .returned ∧ x.other.calling = .returned := by
  simp [isOver]

/-- When both have returned, there should be as many workers as both asked for, less what the second one read. -/
theorem Holds.reads (h : Holds start x) (hover : x.isOver = true) :
    ∃ r, Reads start r x ∧ x.pool.target = x.one.count + x.other.count - r := by
  obtain ⟨hone, hother⟩ := isOver_iff.mp hover
  have hread {c : Caller} (hc : OnWay c) (hr : c.calling = .returned) : ∃ r, c.current = some r :=
    Option.ne_none_iff_exists'.mp fun hnone => by simp [hc.begun.mpr hnone] at hr
  obtain ⟨r, hr⟩ := hread h.one hone
  obtain ⟨r', hr'⟩ := hread h.other hother
  have htarget := h.target
  rw [done_of_returned hone hr, done_of_returned hother hr'] at htarget
  rcases h.reading with ⟨hnone, -⟩ | hab | hab
  · rw [hnone] at hr
    cases hr
  · obtain rfl : start = r := Option.some.inj (hab.first.symm.trans hr)
    have hbetween := hab.second r' hr'
    have hall : start + (x.one.count - start) = x.one.count := by omega
    rw [done_of_returned hone hr, hall] at hbetween
    exact ⟨r', Or.inl ⟨hr, hr', hbetween⟩, by omega⟩
  · obtain rfl : start = r' := Option.some.inj (hab.first.symm.trans hr')
    have hbetween := hab.second r hr
    have hall : start + (x.other.count - start) = x.other.count := by omega
    rw [done_of_returned hother hr', hall] at hbetween
    exact ⟨r, Or.inr ⟨hr', hr, hbetween⟩, by omega⟩

/-- What two calls come to of which the one that read last read `r`. -/
structure Settles (f : Floor) (n m : Nat) (es : List Turn) (x : Overlap) (r : Int) : Prop where
  reads : Reads f.pool.target r x
  level : x.pool.staff = x.pool.target
  target : x.pool.target = n + m - r
  manned : (∀ es' y, es' <+: es → (begun f n m).run? es' = some y → 1 ≤ y.pool.target) ↔ r < n + m
  -- There should be as many as one of the two asked for, if this is what the second one read.
  asked : 1 ≤ x.pool.target ∧ (x.pool.target = n ∨ x.pool.target = m) ↔ r = n ∨ r = m

/-- Whoever acts when and in whichever order at a running pool: when both calls have returned, there are as many
workers as there should be, but how many this is depends on what the second caller read. -/
theorem settles_of_run (hf : f.Running) (hn : 0 < n) (hm : 0 < m) (he : ∀ e ∈ es, e.keepsOn = true)
    (hx : (begun f n m).run? es = some x) (hover : x.isOver = true) : ∃ r, Settles f n m es x r := by
  have hbegun := holds_begun hf n m
  obtain ⟨h, hlater⟩ := hbegun.run? he hx
  obtain ⟨hone, hother⟩ := isOver_iff.mp hover
  obtain ⟨r, hreads, htarget⟩ := h.reads hover
  rw [hlater.count, hlater.count'] at htarget
  change x.pool.target = n + m - r at htarget
  refine ⟨r, hreads, ?_, htarget, ⟨fun hall => ?_, fun hr es' y hprefix hy => ?_⟩, by omega⟩
  · have := h.level
    simp only [hone, hother, Calling.lead] at this
    omega
  · have := hall es x (List.prefix_refl es) hx
    omega
  · obtain ⟨rest, rfl⟩ := hprefix
    obtain ⟨z, hz, hrest⟩ := exists_runs?_of_append hx
    obtain rfl : z = y := Option.some.inj (hz.symm.trans hy)
    obtain ⟨hmid, hearly⟩ := hbegun.run? (fun e hm => he e (List.mem_append_left _ hm)) hz
    obtain ⟨-, hlate⟩ := hmid.run? (fun e hm => he e (List.mem_append_right _ hm)) hrest
    have hcount : z.one.count = n := hearly.count
    have hcount' : z.other.count = m := hearly.count'
    -- Whatever the second caller has read halfway is what it has read in the end.
    refine hmid.manned hf.manned (hcount ▸ hn) (hcount' ▸ hm) fun s hs => ?_
    obtain rfl : s = r := by
      refine hreads.unique ?_
      rcases hs with ⟨hab, hb⟩ | ⟨hab, ha⟩
      · exact .inl ⟨hlate.one _ hab.first, hlate.other s hb⟩
      · exact .inr ⟨hlate.other _ hab.first, hlate.one s ha⟩
    rw [hcount, hcount']
    exact hr

theorem running_of_staffed {s : Shift} (h : s.Staffed) (ha : s.pool.accepting = true) : s.floor.Running where
  sound := h.sound
  keeping := h.keeping
  accepting := ha
  level := h.level.resolve_right fun he => by
    have hclosed := (isExhausted_iff.mp he.pool).2
    rw [← Shift.pool, ha] at hclosed
    cases hclosed
  manned := h.manned

theorem running_opened {c : Settings} {p : Pool} (hp : Pool.create c = .ok p) : (Floor.opened p).Running := by
  obtain ⟨-, crew, -, rfl⟩ := create_eq hp
  exact running_of_staffed (Shift.staffed_opened hp) rfl

/-- Of one worker both callers read; three and two are asked for, and in the end there are four. -/
def growAtOnce : List Turn := .one :: .other :: List.replicate 6 .one ++ List.replicate 4 .other

theorem settles_of_growAtOnce :
    ∃ p x, Pool.create ⟨1, 1, Settings.minStackSize, 5⟩ = .ok p ∧
      (begun (.opened p) 3 2).run? growAtOnce = some x ∧ (x.pool.hands.length, x.pool.target) = (4, 4) ∧
      ∃ r, Settles (.opened p) 3 2 growAtOnce x r := by
  obtain ⟨p, hp⟩ : ∃ p, Pool.create ⟨1, 1, Settings.minStackSize, 5⟩ = .ok p := ⟨_, rfl⟩
  obtain ⟨x, hx, hend, hover⟩ : ∃ x, (begun (.opened p) 3 2).run? growAtOnce = some x ∧
      (x.pool.hands.length, x.pool.target) = (4, 4) ∧ x.isOver = true := by
    cases hp
    exact ⟨_, rfl, rfl, rfl⟩
  exact ⟨p, x, hp, hx, hend, settles_of_run (running_opened hp) (by decide) (by decide) (by decide) hx hover⟩

/-- A worker looks for something to do and finds a token. -/
def retires (id : Nat) : List Turn :=
  [.act (.move ⟨id, .arriving⟩ .pass), .act (.move ⟨id, .looking⟩ .look), .act (.move ⟨id, .choosing⟩ .retire)].map
    .deed

/-- Both callers read of three workers, and each sends two of them away, so that nobody is left. -/
def shrinkAtOnce : List Turn :=
  .one :: .other :: List.replicate 5 .one ++ List.replicate 5 .other ++ retires 0 ++ retires 1 ++ retires 2

theorem deserted_of_shrinkAtOnce :
    ∃ p x, Pool.create ⟨3, 1, Settings.minStackSize, 5⟩ = .ok p ∧ (∀ e ∈ shrinkAtOnce, e.keepsOn = true) ∧
      (begun (.opened p) 1 1).run? shrinkAtOnce = some x ∧ x.isOver = true ∧ x.pool.hands = [] ∧
      x.pool.target = -1 := by
  obtain ⟨p, hp⟩ : ∃ p, Pool.create ⟨3, 1, Settings.minStackSize, 5⟩ = .ok p := ⟨_, rfl⟩
  refine ⟨p, ?_⟩
  cases hp
  exact ⟨_, rfl, by decide, rfl, rfl, rfl, rfl⟩

end Overlap
end BatchJob.Worker
