import BatchJob.Proofs.Worker.Idle
import BatchJob.Proofs.Worker.Stride

/-! How many workers a pool has while somebody changes their number. A token is a worker less even before one
has picked it up, and so those who are there, without the tokens, are always as many as they should be. Nobody
ever sends the last one away: the last worker leaves because nothing is left to do. -/
namespace BatchJob.Worker
open Work

/-- Neither a discard nor a change of the number of workers. -/
def Act.spares : Act → Bool
  | .drop | .discard | .resize _ => false
  | _ => true

def Deed.spares : Deed → Bool
  | .act a => a.spares
  | _ => true

/-- Nobody discards, and nobody but the one who gives orders changes the number of workers. -/
def Turn.spares : Turn → Bool
  | .give orders => decide (.discard ∉ orders)
  | .proceed => true
  | .deed d => d.spares

/-- Whoever asks asks for a worker at least, and whoever sends workers away leaves one. -/
def Resize.Fits (target : Int) : Resize → Prop
  | asked count => 0 < count
  | retiring n => n < target
  | _ => True

theorem Resize.fits_step {r : Resize} {p : Pool} (hr : r.Fits p.target) (hp : 1 ≤ p.target) :
    (r.step p).1.Fits (r.step p).2.target ∧ 1 ≤ (r.step p).2.target := by
  cases r with
  | asked count =>
    simp only [Fits] at hr
    simp only [step]
    split
    · exact ⟨trivial, hp⟩
    · refine ⟨?_, hp⟩
      simp only [Fits]
      omega
  | retiring n =>
    cases n with
    | zero => exact ⟨trivial, hp⟩
    | succ n =>
      simp only [Fits, step] at hr ⊢
      omega
  | reclaiming n =>
    cases n with
    | zero => exact ⟨trivial, hp⟩
    | succ n =>
      simp only [step]
      split
      · exact ⟨trivial, hp⟩
      · refine ⟨trivial, ?_⟩
        show 1 ≤ p.target + 1
        omega
  | spawning n =>
    cases n with
    | zero => exact ⟨trivial, hp⟩
    | succ n =>
      refine ⟨trivial, ?_⟩
      show 1 ≤ p.target + 1
      omega
  | done => exact ⟨trivial, hp⟩

theorem Order.fits_resize (o : Order) (p : Pool) (target : Int) : (o.resize p).Fits target := by
  cases o with
  | workers count =>
    simp only [resize, Pool.resizable]
    by_cases hc : count = 0
    · simp [hc, Resize.Fits]
    · by_cases hs : p.shut = true
      · simp [hc, hs, Resize.Fits]
      · simp [hc, hs, Resize.Fits, Nat.pos_of_ne_zero hc]
  | _ => trivial

namespace Pool

variable {p q : Pool} {h : Hand} {a : Act} {journal : List Entry}

/-- The workers that are there, without those for whom a token lies ready. -/
def staff (p : Pool) : Int := p.hands.length - p.tokens

theorem staff_of_eq (hh : q.hands.length = p.hands.length) (ht : q.tokens = p.tokens) :
    q.staff = p.staff := by rw [staff, staff, hh, ht]

theorem staff_step (r : Resize) (p : Pool) :
    (r.step p).2.staff - (r.step p).2.target = p.staff - p.target := by
  cases r with
  | asked count =>
    simp only [Resize.step]
    split <;> rfl
  | retiring n =>
    cases n with
    | zero => rfl
    | succ n =>
      simp only [Resize.step, staff]
      omega
  | reclaiming n =>
    cases n with
    | zero => rfl
    | succ n =>
      simp only [Resize.step]
      split
      · rfl
      · simp only [staff]
        omega
  | spawning n =>
    cases n with
    | zero => rfl
    | succ n =>
      have htokens : p.spawn.tokens = p.tokens := rfl
      simp only [Resize.step, staff, length_hands_spawn, target_spawn, htokens]
      omega
  | done => rfl

theorem length_hands_exit (hc : p.Crewed) (hh : h ∈ p.hands) :
    (p.exit h.id).hands.length + 1 = p.hands.length := by
  obtain ⟨before, after, he, -, hx⟩ := hc.split hh
  rw [hx, he, List.length_append, List.length_append, List.length_cons]
  omega

/-- Where nobody discards, a worker leaves for a token, or because nothing is left to do. -/
theorem staff_move? (hc : p.Crewed) (hd : p.discarding = false) (hh : h ∈ p.hands) {m : Move}
    (hq : p.move? h.id h.station m = some q) :
    q.staff = p.staff ∨ (m = .leave ∧ p.isExhausted = true) := by
  obtain ⟨i, s⟩ := h
  have hmoved : p.Moved i s m q := moved_of_move? hq
  cases hmoved with
  | quit hd' =>
    rw [hd] at hd'
    cases hd'
  | retire ht =>
    left
    have hlen := length_hands_exit hc hh
    have hhands : (({ p with tokens := p.tokens - 1 } : Pool).exit i).hands = (p.exit i).hands := rfl
    have htokens : (({ p with tokens := p.tokens - 1 } : Pool).exit i).tokens = p.tokens - 1 := rfl
    simp only at hlen
    simp only [staff, hhands, htokens]
    omega
  | leave he => exact Or.inr ⟨rfl, he⟩
  | @start t =>
    left
    simp only [start, hd, Bool.false_eq_true, if_false]
    exact staff_of_eq (length_hands_moveTo ..) rfl
  | _ => exact Or.inl (staff_of_eq (length_hands_moveTo ..) rfl)

theorem staff_perform? (hc : p.Crewed) (hd : p.discarding = false) (ha : a.spares = true)
    (hq : p.perform? a = some q) :
    q.staff = p.staff ∨ ∃ h, a = .move h .leave ∧ p.isExhausted = true := by
  cases a with
  | move h m =>
    simp only [perform?] at hq
    split at hq
    · rename_i hh
      refine (staff_move? hc hd hh hq).imp_right ?_
      rintro ⟨rfl, he⟩
      exact ⟨h, rfl, he⟩
    · cases hq
  | resize r => cases ha
  | _ =>
    obtain ⟨hhands, htokens⟩ := hands_perform? (p := p) (q := q) (by simp) (by simp) hq
    exact Or.inl (staff_of_eq (congrArg List.length hhands) htokens)

theorem note?_ne_dropped (hd : p.discarding = false) (ha : a.spares = true) (t : Task) :
    p.note? a ≠ some (.dropped t) := by
  cases a with
  | drop => cases ha
  | giveUp serial =>
    simp only [note?]
    cases p.blocked.find? (·.serial = serial) <;> simp
  | move h m =>
    obtain ⟨i, s⟩ := h
    cases s with
    | starting t => cases m <;> simp [note?, hd]
    | running t => cases m <;> simp [note?]
    | _ => simp [note?]
  | fetch serial =>
    simp only [note?]
    split <;> simp
  | _ => simp [note?]

theorem discarded_of_follows {l l' : Ledger} {e : Option Entry} (h : l.Follows e l')
    (he : ∀ t, e ≠ some (.dropped t)) : l'.counters.discarded = l.counters.discarded := by
  cases h with
  | quiet => rfl
  | entry hs =>
    cases hs with
    | drop => exact absurd rfl (he _)
    | finish _ o => cases ho : o.isSuccess <;> simp [Counters.finish]
    | _ => rfl

theorem isExhausted_iff : p.isExhausted = true ↔ p.queue = [] ∧ p.accepting = false := by
  simp only [isExhausted, queue, Bool.and_eq_true, Bool.not_eq_true', List.isEmpty_iff,
    List.append_eq_nil_iff]
  tauto

end Pool

namespace Floor
open Pool

variable {f g : Floor} {d : Deed} {ds : List Deed}

theorem gate_of_resume (hg : f.step? (.act .resume) = some g) : g.pool.gate.closed = false := by
  rw [← Option.some.inj (perform?_of_step? hg)]
  rfl

theorem accepting_of_disconnect (hg : f.step? (.act .disconnect) = some g) : g.pool.accepting = false := by
  rw [← Option.some.inj (perform?_of_step? hg)]

theorem accepting_step? (h : f.pool.accepting = false) (hg : f.step? d = some g) :
    g.pool.accepting = false := by
  by_cases hd : d = .act .disconnect
  · subst hd
    exact accepting_of_disconnect hg
  · exact ((heeds_step? hg).accepting hd).trans h

theorem accepting_run? (ha : f.pool.accepting = false) (h : f.run? ds = some g) : g.pool.accepting = false :=
  run?_induction (fun _ _ _ _ hx hy => accepting_step? hx hy) h (fun _ _ => trivial) ha

theorem Exhausted.step? (h : f.Exhausted) (hg : f.step? d = some g) : g.Exhausted := by
  obtain ⟨hq, ha⟩ := isExhausted_iff.mp h.pool
  have hsame : g.pool = f.pool → g.connected = f.connected → g.Exhausted := fun hp hc =>
    ⟨hp ▸ h.pool, hc ▸ h.connected⟩
  cases d with
  | ask u =>
    simp only [Floor.step?] at hg
    split at hg <;> cases hg
    exact hsame rfl rfl
  | connect u =>
    simp only [Floor.step?, ha, Bool.false_eq_true, and_false, if_false] at hg
    cases hg
  | turnBack u =>
    simp only [Floor.step?] at hg
    split at hg <;> cases hg
    exact hsame rfl rfl
  | announce u =>
    simp only [Floor.step?, h.connected, List.not_mem_nil, if_false] at hg
    cases hg
  | act a =>
    have haccepting := accepting_step? ha hg
    simp only [Floor.step?] at hg
    split at hg
    · rename_i hallowed
      obtain ⟨q, hq', rfl⟩ := Option.map_eq_some_iff.mp hg
      have hk := keeps_perform? (fun u hu => by subst hu; cases hallowed) hq'
      refine ⟨isExhausted_iff.mpr ⟨List.eq_nil_iff_forall_not_mem.mpr fun t ht => ?_, haccepting⟩,
        h.connected⟩
      have hold := hk.queue t ht
      rw [hq] at hold
      cases hold
    · cases hg

theorem Exhausted.run? (h : f.Exhausted) (hg : f.run? ds = some g) : g.Exhausted :=
  run?_induction (fun _ _ _ _ hx hy => hx.step? hy) hg (fun _ _ => trivial) h

theorem staff_step? (hs : f.pool.Sound f.journal) (hk : f.pool.discarding = false) (hd : d.spares = true)
    (hg : f.step? d = some g) :
    g.pool.counters.discarded = f.pool.counters.discarded ∧
      (g.pool.staff = f.pool.staff ∨ f.Exhausted) := by
  obtain ⟨hp, -⟩ | ⟨a, ha, hq, -⟩ := step?_cases hg
  · rw [hp]
    exact ⟨rfl, Or.inl rfl⟩
  · have hspares : a.spares = true := by
      rcases ha with rfl | ⟨u, rfl⟩
      · exact hd
      · rfl
    obtain ⟨hfollows, -⟩ := follows_perform? hs.crewed hs.distinct hq
    refine ⟨discarded_of_follows hfollows (note?_ne_dropped hk hspares),
      (staff_perform? hs.crewed hk hspares hq).imp_right ?_⟩
    rintro ⟨h, rfl, he⟩
    rcases ha with rfl | ⟨u, hu⟩
    · simp only [step?] at hg
      split at hg
      · rename_i hallowed
        exact ⟨he, by simpa [allows] using hallowed⟩
      · cases hg
    · cases hu

end Floor

/-- A pool in which nobody discards, while its number of workers is changed. -/
structure Shift.Staffed (s : Shift) : Prop where
  sound : s.pool.Sound s.floor.journal
  depth : 0 < s.pool.depth
  keeping : s.pool.discarding = false
  undropped : s.pool.counters.discarded = 0
  orders : .discard ∉ s.orders
  fits : s.resize.Fits s.pool.target
  manned : 1 ≤ s.pool.target
  level : s.pool.staff = s.pool.target ∨ s.floor.Exhausted

theorem Settings.pos_of_problem? {c : Settings} (h : c.problem? = none) : 0 < c.workers ∧ 0 < c.depth := by
  rw [problem?] at h
  split at h
  · cases h
  · split at h
    · cases h
    · omega

namespace Shift
open Pool

variable {s s' : Shift} {t : Turn} {ts : List Turn}

theorem staffed_opened {c : Settings} {p : Pool} (hp : Pool.create c = .ok p) : (opened p).Staffed := by
  have hsound := sound_create hp
  obtain ⟨hfine, crew, hlen, rfl⟩ := create_eq hp
  obtain ⟨hworkers, hdepth⟩ := Settings.pos_of_problem? hfine
  refine ⟨hsound, hdepth, rfl, rfl, List.not_mem_nil, trivial, ?_, Or.inl ?_⟩
  · show (1 : Int) ≤ c.workers
    omega
  · show (crew.length : Int) - ((0 : Nat) : Int) = c.workers
    omega

theorem Staffed.deed {d : Deed} (h : s.Staffed) (hd : d.spares = true) (hs : s.step? (.deed d) = some s') :
    s'.Staffed := by
  obtain ⟨hf, hr, ho⟩ := step?_deed hs
  have hh := Floor.heeds_step? hf
  have htarget : s'.pool.target = s.pool.target := hh.target fun r he => by
    subst he
    cases hd
  have hkeeping : s'.pool.discarding = s.pool.discarding := hh.discarding fun he => by
    subst he
    cases hd
  obtain ⟨hdropped, hstaff⟩ := Floor.staff_step? h.sound h.keeping hd hf
  exact {
    sound := Floor.sound_step? h.sound hf
    depth := hh.depth ▸ h.depth
    keeping := hkeeping.trans h.keeping
    undropped := hdropped.trans h.undropped
    orders := ho ▸ h.orders
    fits := by
      rw [hr, htarget]
      exact h.fits
    manned := htarget ▸ h.manned
    level := by
      rw [htarget]
      obtain hl | he := h.level
      · exact hstaff.imp (fun hsame => hsame.trans hl) fun he => he.step? hf
      · exact Or.inr (he.step? hf) }

theorem Staffed.proceed (h : s.Staffed) (hs : s.proceed? = some s') : s'.Staffed := by
  obtain ⟨ds, hds⟩ := floor_proceed? hs
  have hsound : s'.pool.Sound s'.floor.journal := Floor.sound_run? h.sound hds
  have hexhausted : s.floor.Exhausted → s'.floor.Exhausted := fun he => he.run? hds
  obtain ⟨o, rest, hr, ho, rfl⟩ | ⟨-, rfl⟩ := proceed?_cases hs
  · have horders := ho ▸ h.orders
    have hrest : Order.discard ∉ rest := fun hm => horders (List.mem_cons_of_mem _ hm)
    have hfits := o.fits_resize s.pool
    cases o with
    | discard => exact absurd (List.mem_cons_self ..) horders
    | _ =>
      exact ⟨hsound, h.depth, h.keeping, h.undropped, hrest, hfits _, h.manned, h.level.imp_right hexhausted⟩
  · have hh : Heeds (fun a => ∃ r, a = .resize r) s.pool (s.resize.step s.pool).2 :=
      heeds_step s.resize ⟨_, rfl⟩ s.pool
    have hcounters : (s.resize.step s.pool).2.counters = s.pool.counters :=
      congrArg Ledger.counters (ledger_step s.resize s.pool)
    obtain ⟨hfits, hmanned⟩ := Resize.fits_step h.fits h.manned
    have hlevel := staff_step s.resize s.pool
    exact {
      sound := hsound
      depth := hh.depth ▸ h.depth
      keeping := (hh.discarding (by simp)).trans h.keeping
      undropped := (congrArg Counters.discarded hcounters).trans h.undropped
      orders := h.orders
      fits := hfits
      manned := hmanned
      level := by
        refine h.level.imp (fun hl => ?_) hexhausted
        show (s.resize.step s.pool).2.staff = (s.resize.step s.pool).2.target
        omega }

theorem Staffed.step? (ht : t.spares = true) (h : s.Staffed) (hs : s.step? t = some s') : s'.Staffed := by
  cases t with
  | give orders =>
    simp only [Turn.spares, decide_eq_true_eq] at ht
    simp only [Shift.step?] at hs
    split at hs <;> cases hs
    exact ⟨h.sound, h.depth, h.keeping, h.undropped, ht, h.fits, h.manned, h.level⟩
  | proceed => exact h.proceed hs
  | deed d => exact h.deed ht hs

theorem Staffed.run? (h : s.Staffed) (ht : ∀ t ∈ ts, t.spares = true) (hs : s.run? ts = some s') :
    s'.Staffed := runs?_induction (fun _ t _ (ht : t.spares = true) h hs => h.step? ht hs) hs ht h

theorem Staffed.executed (h : s.Staffed) (hh : s.pool.hands = []) (i : Nat) (hi : s.pool.isAccepted i) :
    s.pool.Executed i := by
  have he : s.floor.Exhausted := by
    refine h.level.resolve_left fun hl => ?_
    have := h.manned
    simp only [staff, hh, List.length_nil] at hl
    omega
  obtain ⟨hq, -⟩ := isExhausted_iff.mp he.pool
  exact (idle_of_deserted hh hq).executed h.sound h.undropped hi

/-- Nobody gives an order, and nobody else changes the number of workers. -/
def Leaves (t : Turn) : Prop := t.spares = true ∧ ∀ orders, t ≠ .give orders

theorem goal_run? {us : List Turn} {n : Int} (hs : s.run? us = some s') (hu : ∀ t ∈ us, Leaves t)
    (ho : s.orders = []) (hn : (s.resize.settle s.pool.setting).target = n) :
    s'.orders = [] ∧ (s'.resize.settle s'.pool.setting).target = n := by
  refine runs?_induction (motive := fun x => x.orders = [] ∧ (x.resize.settle x.pool.setting).target = n)
    (fun x t y ht hx hy => ?_) hs hu ⟨ho, hn⟩
  obtain ⟨hx, hn⟩ := hx
  cases t with
  | give orders => exact absurd rfl (ht.2 orders)
  | proceed =>
    have hsame := settled_proceed? hy
    obtain ⟨o, rest, -, ho, -⟩ | ⟨-, rfl⟩ := proceed?_cases hy
    · rw [hx] at ho
      cases ho
    · simp only [settled, hx, List.foldl_nil] at hsame
      exact ⟨hx, (congrArg Setting.target hsame).trans hn⟩
  | deed d =>
    obtain ⟨hf, hr, ho⟩ := step?_deed hy
    have htarget : y.pool.target = x.pool.target := (Floor.heeds_step? hf).target fun r he => by
      subst he
      cases ht.1
    refine ⟨ho.trans hx, ?_⟩
    rw [hr, ← hn]
    cases x.resize <;> simp [Resize.settle, setting, htarget]

theorem target_of_workers {us : List Turn} {n : Nat} (hn : 0 < n) (hidle : s.isIdle = true)
    (hopen : s.pool.shut = false) (hu : ∀ t ∈ us, Leaves t)
    (hs : s.run? (.give [.workers n] :: .proceed :: us) = some s') (hidle' : s'.isIdle = true) :
    s'.pool.target = n := by
  obtain ⟨hr, -⟩ := isIdle_iff.mp hidle
  obtain ⟨hr', -⟩ := isIdle_iff.mp hidle'
  have hask : s.pool.resizable n = .ok () := by simp [resizable, Nat.pos_iff_ne_zero.mp hn, hopen]
  simp only [run?_cons, Shift.step?, hidle, if_true, Option.bind_some, proceed?, hr] at hs
  obtain ⟨-, htarget⟩ := goal_run? (n := n) hs hu rfl (by
    show (Resize.settle _ (Order.resize s.pool (.workers n))).target = n
    simp [Order.resize, hask, Resize.settle])
  rw [hr'] at htarget
  exact htarget

end Shift
end BatchJob.Worker
