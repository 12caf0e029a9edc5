import BatchJob.Pace
import Mathlib.Data.List.DropRight
import Mathlib.Data.List.Induction

/-! What the time left rests on. Each look has a rate of its own, from what was completed since the look before it.
What counts are the rates since the last pause in which nothing was completed, and of these as many of the latest as
fit the window. -/
namespace BatchJob.Pace
open Number

/-- A sample, and the rate since the one before. -/
structure Look where
  sample : Sample
  rate : Float

def mark (s : Sample) : Duration × Nat := (s.time, s.completed)

def Look.since (before : Duration × Nat) (s : Sample) : Look :=
  ⟨s, perSecond (s.completed - before.2) (s.time - before.1)⟩

/-- A pause in which nothing was completed. -/
def Look.isIdle (l : Look) : Bool := l.sample.paused && l.rate == 0

/-- Each sample with its rate since the one before, the first with its rate since `before`. -/
def looksFrom (before : Duration × Nat) : List Sample → List Look
  | [] => []
  | s :: rest => .since before s :: looksFrom (mark s) rest

def lastMark (before : Duration × Nat) (samples : List Sample) : Duration × Nat :=
  (samples.getLast?.map mark).getD before

@[simp] theorem lastMark_cons (before : Duration × Nat) (s : Sample) (rest : List Sample) :
    lastMark before (s :: rest) = lastMark (mark s) rest := by
  cases hlast : rest.getLast? <;> simp [lastMark, List.getLast?_cons, hlast]

@[simp] theorem lastMark_concat (before : Duration × Nat) (samples : List Sample) (s : Sample) :
    lastMark before (samples ++ [s]) = mark s := by
  simp [lastMark]

theorem looksFrom_concat (before : Duration × Nat) (samples : List Sample) (s : Sample) :
    looksFrom before (samples ++ [s]) = looksFrom before samples ++ [.since (lastMark before samples) s] := by
  induction samples generalizing before with
  | nil => rfl
  | cons t rest ih => rw [List.cons_append, looksFrom, looksFrom, ih, lastMark_cons, List.cons_append]

def lookAll (p : Pace) (samples : List Sample) : Pace := samples.foldl (fun p s => (p.look s).2) p

theorem lookAll_concat (p : Pace) (samples : List Sample) (s : Sample) :
    p.lookAll (samples ++ [s]) = ((p.lookAll samples).look s).2 := by
  simp [lookAll]

/-- The rates of the looks since the last idle one, as many of the latest as fit. -/
def recentRates (window : Nat) (ls : List Look) : List Float :=
  ((ls.rtakeWhile fun l => !l.isIdle).rtake window).map Look.rate

theorem recentRates_concat_idle (window : Nat) (ls : List Look) {l : Look} (h : l.isIdle = true) :
    recentRates window (ls ++ [l]) = [] := by
  rw [recentRates, List.rtakeWhile_concat_neg _ _ _ (by simp [h]), List.rtake_nil, List.map_nil]

theorem pushRate_rtake {window : Nat} (hw : 0 < window) (rates : List Float) (rate : Float) :
    pushRate window (rates.rtake window) rate = (rates ++ [rate]).rtake window := by
  obtain ⟨n, rfl⟩ : ∃ n, window = n + 1 := ⟨window - 1, by omega⟩
  rw [List.rtake_concat_succ, pushRate]
  congr 1
  by_cases hfull : n + 1 ≤ rates.length
  · have hlength : (rates.rtake (n + 1)).length = n + 1 := by simp [List.rtake]; omega
    rw [if_pos hlength, List.rtake, List.rtake, List.tail_drop]
    congr 1
    omega
  · have hall : ∀ m, n ≤ m → rates.rtake m = rates := fun m hm => by
      rw [List.rtake, Nat.sub_eq_zero_of_le (by omega), List.drop_zero]
    rw [hall _ (by omega), hall _ (le_refl n), if_neg (by omega)]

theorem recentRates_concat {window : Nat} (hw : 0 < window) (ls : List Look) {l : Look} (h : l.isIdle = false) :
    recentRates window (ls ++ [l]) = pushRate window (recentRates window ls) l.rate := by
  have hmap : ∀ xs : List Look, (xs.rtake window).map Look.rate = (xs.map Look.rate).rtake window := fun xs => by
    rw [List.rtake, List.rtake, List.map_drop, List.length_map]
  rw [recentRates, recentRates, List.rtakeWhile_concat_pos _ _ _ (by simp [h]), hmap, hmap, pushRate_rtake hw,
    List.map_append, List.map_singleton]

/-- A pace that has had the looks. -/
structure Remembers (begun : Duration) (size : Nat) (samples : List Sample) (p : Pace) : Prop where
  started : p.started = begun
  window : p.window = max 1 size
  previous : p.previous.getD (begun, 0) = lastMark (begun, 0) samples
  rates : p.rates = recentRates (max 1 size) (looksFrom (begun, 0) samples)

variable {begun : Duration} {size : Nat} {samples : List Sample} {p : Pace}

theorem remembers_start (begun : Duration) (size : Nat) : Remembers begun size [] (start begun size) :=
  ⟨rfl, rfl, rfl, by simp [start, looksFrom, recentRates]⟩

/-- The rate that a look shows is the one since the look before, also where no rates are left. -/
theorem Remembers.currentRate (h : Remembers begun size samples p) (s : Sample) :
    p.currentRate s = (Look.since (lastMark (begun, 0) samples) s).rate := by
  rw [Pace.currentRate, h.started, h.previous]
  rfl

theorem Remembers.look (h : Remembers begun size samples p) (s : Sample) :
    Remembers begun size (samples ++ [s]) (p.look s).2 where
  started := h.started
  window := h.window
  previous := by
    rw [lastMark_concat]
    rfl
  rates := by
    have hidle : (Look.since (lastMark (begun, 0) samples) s).isIdle = (s.paused && p.currentRate s == 0) := by
      rw [h.currentRate s]
      rfl
    show p.nextRates s = _
    rw [looksFrom_concat, nextRates, ← hidle]
    cases hcase : (Look.since (lastMark (begun, 0) samples) s).isIdle with
    | true => rw [recentRates_concat_idle _ _ hcase, if_pos rfl]
    | false =>
      have hpos : 0 < max 1 size := by omega
      rw [recentRates_concat hpos _ hcase, if_neg (by simp), h.window, h.rates, h.currentRate s]

theorem remembers_lookAll (begun : Duration) (size : Nat) (samples : List Sample) :
    Remembers begun size samples ((start begun size).lookAll samples) := by
  induction samples using List.reverseRecOn with
  | nil => exact remembers_start begun size
  | append_singleton samples s ih =>
    rw [lookAll_concat]
    exact ih.look s

theorem exists_split (window : Nat) (ls : List Look) : ∃ before after, ls = before ++ after ∧
    (∀ l ∈ before.getLast?, l.isIdle = true) ∧ (∀ l ∈ after, l.isIdle = false) ∧
    recentRates window ls = (after.rtake (min window after.length)).map Look.rate := by
  refine ⟨ls.rdropWhile fun l => !l.isIdle, ls.rtakeWhile fun l => !l.isIdle,
    List.rdropWhile_append_rtakeWhile.symm, fun l hl => ?_, fun l hl => ?_, ?_⟩
  · obtain ⟨hne, rfl⟩ := List.mem_getLast?_eq_getLast hl
    simpa using List.rdropWhile_last_not (fun l : Look => !l.isIdle) ls hne
  · simpa using List.mem_rtakeWhile_imp hl
  · rw [recentRates]
    congr 1
    rw [List.rtake, List.rtake]
    congr 1
    omega

/-- What is promised of a look that comes after some others: its rate, the rates that it goes by and leaves behind,
and the time left. -/
structure Windowed (begun : Duration) (size : Nat) (earlier : List Sample) (s : Sample) (shown : Reading)
    (next : Pace) : Prop where
  current : shown.current =
    perSecond (s.completed - (lastMark (begun, 0) earlier).2) (s.time - (lastMark (begun, 0) earlier).1)
  latest : looksFrom (begun, 0) (earlier ++ [s]) = looksFrom (begun, 0) earlier ++ [⟨s, shown.current⟩]
  rates : ∃ before after, looksFrom (begun, 0) (earlier ++ [s]) = before ++ after ∧
    (∀ l ∈ before.getLast?, l.isIdle = true) ∧ (∀ l ∈ after, l.isIdle = false) ∧
    next.rates = (after.rtake (min (max 1 size) after.length)).map Look.rate
  left : shown.left = timeLeft (s.total - s.completed) next.rates
  done : s.total ≤ s.completed → shown.left = some .zero
  unknown : s.completed < s.total → next.rates = [] → shown.left = none

/-- The rates that a look goes by are those of the latest looks since the last idle one, as many as fit. -/
theorem windowed_of_look (begun : Duration) (size : Nat) (earlier : List Sample) (s : Sample) :
    Windowed begun size earlier s (((start begun size).lookAll earlier).look s).1
      ((start begun size).lookAll (earlier ++ [s])) := by
  have hearlier := remembers_lookAll begun size earlier
  have hall := remembers_lookAll begun size (earlier ++ [s])
  have hcurrent : (((start begun size).lookAll earlier).look s).1.current =
      (Look.since (lastMark (begun, 0) earlier) s).rate := hearlier.currentRate s
  have hleft : (((start begun size).lookAll earlier).look s).1.left =
      timeLeft (s.total - s.completed) ((start begun size).lookAll (earlier ++ [s])).rates := by
    rw [lookAll_concat]
    rfl
  refine ⟨hcurrent, ?_, ?_, hleft, fun hdone => ?_, fun hmore hnone => ?_⟩
  · rw [looksFrom_concat, hcurrent]
    rfl
  · obtain ⟨before, after, hsplit, hbefore, hafter, hrates⟩ :=
      exists_split (max 1 size) (looksFrom (begun, 0) (earlier ++ [s]))
    exact ⟨before, after, hsplit, hbefore, hafter, hall.rates.trans hrates⟩
  · rw [hleft, timeLeft, if_pos (Nat.sub_eq_zero_of_le hdone)]
  · rw [hleft, hnone, timeLeft, if_neg (by omega), if_pos rfl]

/-- A pause comes between two stretches of work. -/
def onAndOff : List Sample :=
  [⟨.ofSeconds 10, 100, 0, 1000, false, 4⟩, ⟨.ofSeconds 20, 100, 0, 1000, true, 0⟩,
    ⟨.ofSeconds 30, 300, 0, 1000, false, 4⟩]

theorem windowed_of_onAndOff :
    (((start .zero 2).lookAll (onAndOff.take 1)).look ⟨.ofSeconds 20, 100, 0, 1000, true, 0⟩).1.left = none ∧
      (((start .zero 2).lookAll (onAndOff.take 2)).look ⟨.ofSeconds 30, 300, 0, 1000, false, 4⟩).1.left =
        some (.ofSeconds 35) := by
  have hpause := windowed_of_look .zero 2 (onAndOff.take 1) ⟨.ofSeconds 20, 100, 0, 1000, true, 0⟩
  have hwork := windowed_of_look .zero 2 (onAndOff.take 2) ⟨.ofSeconds 30, 300, 0, 1000, false, 4⟩
  refine ⟨hpause.unknown (by decide) ?_, hwork.left.trans ?_⟩
  · rw [← List.isEmpty_iff]
    decide +kernel
  · decide +kernel

end BatchJob.Pace
