import BatchJob.Settings.Layers

/-! What becomes of settings to which entries are applied: each key takes the last text that it is given, whatever
other keys are given in between, and one text that cannot be read spoils them all. -/
namespace BatchJob.Settings
open Text

variable {s t : Settings} {key : Key} {e : String × String} {es : List (String × String)}

theorem Key.ofName?_eq_some {name : String} : Key.ofName? name = some key ↔ name = key.name := by
  constructor
  · intro h
    unfold Key.ofName? at h
    have hname := List.find?_some h
    exact (of_decide_eq_true hname).symm
  · intro h
    rw [h, Key.ofName?_name]

def Key.ofEntry? (e : String × String) : Option Key := Key.ofName? (normalizeKey e.1)

def lastText? (key : Key) : List (String × String) → Option String
  | [] => none
  | e :: rest => lastText? key rest <|> if Key.ofEntry? e = some key then some e.2 else none

@[simp] theorem lastText?_append (key : Key) (es es' : List (String × String)) :
    lastText? key (es ++ es') = (lastText? key es' <|> lastText? key es) := by
  induction es with
  | nil => simp [lastText?]
  | cons e rest ih => simp [lastText?, ih, Option.or_assoc]

/-- The value that a text stands for; without one the value stays. -/
def valueOf (s : Settings) (key : Key) : Option String → Option key.kind.Value
  | none => some (s.get key)
  | some text => key.kind.read (trim text)

@[simp] theorem valueOf_none (s : Settings) (key : Key) : s.valueOf key none = some (s.get key) := rfl

@[simp] theorem valueOf_some (s : Settings) (key : Key) (text : String) :
    s.valueOf key (some text) = key.kind.read (trim text) := rfl

/-- Every text that a key is given can be read. -/
def Readable (es : List (String × String)) : Prop :=
  ∀ e ∈ es, ∀ key, Key.ofEntry? e = some key → (key.kind.read (trim e.2)).isSome

/-- Every key has the value of the last text that it is given. -/
def Assigned (s : Settings) (es : List (String × String)) (t : Settings) : Prop :=
  ∀ key, s.valueOf key (lastText? key es) = some (t.get key)

theorem Assigned.unique {t' : Settings} (h : s.Assigned es t) (h' : s.Assigned es t') : t = t' := by
  apply ext_get
  intro key
  have heq := (h key).symm.trans (h' key)
  exact Option.some.inj heq

theorem apply_of_ofEntry?_none (s : Settings) (h : Key.ofEntry? e = none) : s.apply e.1 e.2 = .ok none := by
  unfold Key.ofEntry? at h
  simp [apply, h]

theorem apply_of_read (s : Settings) {v : key.kind.Value} (h : Key.ofEntry? e = some key)
    (hv : key.kind.read (trim e.2) = some v) : s.apply e.1 e.2 = .ok (some (s.set key v)) := by
  unfold Key.ofEntry? at h
  simp [apply, h, hv]

theorem apply_of_unread (s : Settings) (h : Key.ofEntry? e = some key) (hv : key.kind.read (trim e.2) = none) :
    s.apply e.1 e.2 = .error (key.kind.complaint (normalizeKey e.1) (trim e.2)) := by
  unfold Key.ofEntry? at h
  simp [apply, h, hv]

theorem readable_cons : Readable (e :: es) ↔
    (∀ key, Key.ofEntry? e = some key → (key.kind.read (trim e.2)).isSome) ∧ Readable es := by
  simp only [Readable, List.mem_cons, forall_eq_or_imp]

theorem assigned_cons_of_none (h : Key.ofEntry? e = none) : s.Assigned (e :: es) t ↔ s.Assigned es t := by
  simp [Assigned, lastText?, h]

theorem assigned_cons_of_some {v : key.kind.Value} (h : Key.ofEntry? e = some key)
    (hv : key.kind.read (trim e.2) = some v) :
    s.Assigned (e :: es) t ↔ (s.set key v).Assigned es t := by
  apply forall_congr'
  intro key'
  by_cases hkey : key' = key
  · subst hkey
    cases hlast : lastText? key' es <;> simp [lastText?, h, hv, hlast]
  · cases hlast : lastText? key' es <;> simp [lastText?, h, Ne.symm hkey, hlast, get_set_of_ne s v hkey]

theorem applyAll_eq_ok : s.applyAll es = .ok t ↔ Readable es ∧ s.Assigned es t := by
  induction es generalizing s with
  | nil =>
    have hread : Readable [] := by simp [Readable]
    simp only [applyAll, Except.ok.injEq, hread, true_and]
    constructor
    · rintro rfl key
      rfl
    · intro h
      apply ext_get
      intro key
      exact Option.some.inj (h key)
  | cons e rest ih =>
    rw [readable_cons, applyAll]
    cases hkey : Key.ofEntry? e with
    | none => simp [apply_of_ofEntry?_none s hkey, ih, assigned_cons_of_none hkey]
    | some key =>
      cases hv : key.kind.read (trim e.2) with
      | none => simp [apply_of_unread s hkey hv, hv]
      | some v => simp [apply_of_read s hkey hv, hv, ih, assigned_cons_of_some hkey hv]

/-- What the keys are given can be read, and so there is just one outcome. -/
theorem exists_assigned (s : Settings) (h : Readable es) : ∃ t, s.Assigned es t := by
  induction es generalizing s with
  | nil => exact ⟨s, fun key => rfl⟩
  | cons e rest ih =>
    obtain ⟨hfirst, hrest⟩ := readable_cons.mp h
    cases hkey : Key.ofEntry? e with
    | none =>
      obtain ⟨t, ht⟩ := ih s hrest
      exact ⟨t, (assigned_cons_of_none hkey).mpr ht⟩
    | some key =>
      obtain ⟨v, hv⟩ := Option.isSome_iff_exists.mp (hfirst key hkey)
      obtain ⟨t, ht⟩ := ih (s.set key v) hrest
      exact ⟨t, (assigned_cons_of_some hkey hv).mpr ht⟩

theorem applyAll_filter (s : Settings) (es : List (String × String)) :
    s.applyAll (es.filter fun e => (Key.ofEntry? e).isSome) = s.applyAll es := by
  induction es generalizing s with
  | nil => rfl
  | cons e rest ih =>
    cases hkey : Key.ofEntry? e with
    | none =>
      rw [List.filter_cons_of_neg (by simp [hkey]), ih, applyAll, apply_of_ofEntry?_none s hkey]
    | some key =>
      rw [List.filter_cons_of_pos (by simp [hkey]), applyAll, applyAll]
      cases hout : s.apply e.1 e.2 with
      | error fault => rfl
      | ok after => cases after <;> exact ih _

end BatchJob.Settings
