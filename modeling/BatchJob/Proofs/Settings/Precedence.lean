import BatchJob.Proofs.Settings.Assignments
import BatchJob.Proofs.Text.Keys

/-! Settings from layers. What the highest layer says of a key is what counts, in whatever order the layers name
their keys. -/
namespace BatchJob.Settings
open Text

variable {t : Table} {l l' : Layers} {key : Key}

theorem ofEntry?_eq_some {e : String × String} (h : normalizeKey e.1 = e.1) :
    Key.ofEntry? e = some key ↔ e.1 = key.name := by
  rw [Key.ofEntry?, h, Key.ofName?_eq_some]

theorem lastText?_eq_none {es : List (String × String)} (hfixed : ∀ e ∈ es, normalizeKey e.1 = e.1)
    (h : key.name ∉ es.map Prod.fst) : lastText? key es = none := by
  induction es with
  | nil => rfl
  | cons e rest ih =>
    obtain ⟨he, hrest⟩ := List.forall_mem_cons.mp hfixed
    simp only [List.map_cons, List.mem_cons, not_or] at h
    have hne : Key.ofEntry? e ≠ some key := fun hkey => h.1 ((ofEntry?_eq_some he).mp hkey).symm
    simp [lastText?, ih hrest h.2, hne]

theorem lastText?_eq_lookup {es : List (String × String)} (hfixed : ∀ e ∈ es, normalizeKey e.1 = e.1)
    (hnodup : (es.map Prod.fst).Nodup) : lastText? key es = es.lookup key.name := by
  induction es with
  | nil => rfl
  | cons e rest ih =>
    obtain ⟨he, hrest⟩ := List.forall_mem_cons.mp hfixed
    obtain ⟨hnot, htail⟩ := List.nodup_cons.mp hnodup
    have hkey : Key.ofEntry? e = some key ↔ e.1 = key.name := ofEntry?_eq_some he
    rw [lastText?, Table.lookup_cons]
    by_cases h : key.name = e.1
    · rw [← h] at hnot
      simp [lastText?_eq_none hrest hnot, hkey.mpr h.symm, h]
    · have hne : Key.ofEntry? e ≠ some key := fun hsome => h (hkey.mp hsome).symm
      simp [ih hrest htail, hne, h]

theorem lastText?_of_normal (h : t.Normal) (key : Key) : lastText? key t.entries = t.get? key.name :=
  lastText?_eq_lookup (fun e he => h.fixed e.1 (List.mem_map_of_mem he)) h.nodup

/-- What a table says of the keys can be read. -/
def ReadableTable (t : Table) : Prop :=
  ∀ key text, t.get? (Key.name key) = some text → (key.kind.read (trim text)).isSome

theorem readable_entries (h : t.Normal) : Readable t.entries ↔ ReadableTable t := by
  constructor
  · intro hread key text hget
    have hmem := h.get?_eq_some.mp hget
    exact hread _ hmem key ((ofEntry?_eq_some (h.fixed _ (List.mem_map_of_mem hmem))).mpr rfl)
  · intro hread e hmem key hkey
    have hname := (ofEntry?_eq_some (h.fixed _ (List.mem_map_of_mem hmem))).mp hkey
    apply hread key
    rw [h.get?_eq_some, ← hname]
    exact hmem

theorem readable_append {es es' : List (String × String)} : Readable (es ++ es') ↔ Readable es ∧ Readable es' := by
  simp only [Readable, List.mem_append, or_imp, forall_and]

namespace Layers

structure Normal (l : Layers) : Prop where
  commandFile : l.commandFile.Normal
  environment : l.environment.Normal
  explicit : l.explicit.Normal

/-- What the highest layer that has the key says of it. -/
def text? (l : Layers) (key : Key) : Option String :=
  l.explicit.get? key.name <|> l.environment.get? key.name <|> l.commandFile.get? key.name

/-- What any layer says of the keys can be read, also where a higher layer says something else. -/
def Readable (l : Layers) : Prop :=
  ∀ layer ∈ [l.commandFile, l.environment, l.explicit], ReadableTable layer

/-- Every key has the value that the highest layer gives it, and its default where no layer does. -/
def Sets (l : Layers) (s : Settings) : Prop :=
  ∀ key, match l.text? key with
    | some text => key.kind.read (trim text) = some (s.get key)
    | none => s.get key = default.get key

/-- The layers name the same keys with the same values, each in an order of its own. -/
structure Reordered (l l' : Layers) : Prop where
  commandFile : l.commandFile.entries.Perm l'.commandFile.entries
  environment : l.environment.entries.Perm l'.environment.entries
  explicit : l.explicit.entries.Perm l'.explicit.entries

theorem readable_entries_iff (h : l.Normal) : Settings.Readable l.entries ↔ l.Readable := by
  simp only [Layers.entries, readable_append, readable_entries h.commandFile, readable_entries h.environment,
    readable_entries h.explicit, Readable, List.forall_mem_cons]
  simp [and_assoc]

theorem lastText?_entries (h : l.Normal) (key : Key) : lastText? key l.entries = l.text? key := by
  simp [Layers.entries, text?, lastText?_of_normal h.commandFile, lastText?_of_normal h.environment,
    lastText?_of_normal h.explicit, Option.or_assoc]

theorem assigned_entries_iff (h : l.Normal) (s : Settings) : default.Assigned l.entries s ↔ l.Sets s := by
  apply forall_congr'
  intro key
  rw [lastText?_entries h]
  cases l.text? key with
  | none => simp [eq_comm]
  | some text => simp

theorem Reordered.normal (h : l.Normal) (hr : l.Reordered l') : l'.Normal where
  commandFile := h.commandFile.of_perm hr.commandFile
  environment := h.environment.of_perm hr.environment
  explicit := h.explicit.of_perm hr.explicit

theorem Reordered.text? (h : l.Normal) (hr : l.Reordered l') (key : Key) : l'.text? key = l.text? key := by
  simp only [Layers.text?, h.explicit.get?_perm hr.explicit, h.environment.get?_perm hr.environment,
    h.commandFile.get?_perm hr.commandFile]

theorem Reordered.sets (h : l.Normal) (hr : l.Reordered l') (s : Settings) : l'.Sets s ↔ l.Sets s := by
  apply forall_congr'
  intro key
  rw [hr.text? h]

theorem Reordered.readable (h : l.Normal) (hr : l.Reordered l') : l'.Readable ↔ l.Readable := by
  simp only [Readable, ReadableTable, List.forall_mem_cons, h.commandFile.get?_perm hr.commandFile,
    h.environment.get?_perm hr.environment, h.explicit.get?_perm hr.explicit]

/-- The environment without the keys that are none of the settings'. -/
def onlyKnown (l : Layers) : Layers :=
  { l with environment := ⟨l.environment.entries.filter fun e => isKnown e.1⟩ }

/-- An environment with all of its keys. -/
def withWholeEnvironment (l : Layers) (vars : List (String × String)) : Layers :=
  { l with environment := .ofList (vars.map fun v => (normalizeKey v.1, v.2)) }

theorem onlyKnown_withWholeEnvironment (l : Layers) (vars : List (String × String)) :
    (l.withWholeEnvironment vars).onlyKnown = l.withEnvironment vars := by
  simp only [onlyKnown, withWholeEnvironment, withEnvironment, ← Table.entries_ofList_filter]

theorem normal_empty : empty.Normal := ⟨Table.normal_empty, Table.normal_empty, Table.normal_empty⟩

theorem Normal.withExplicit (h : l.Normal) (name value : String) : (l.withExplicit name value).Normal :=
  { h with explicit := h.explicit.put (normalizeKey_normalizeKey name) value }

theorem Normal.withWholeEnvironment (h : l.Normal) (vars : List (String × String)) :
    (l.withWholeEnvironment vars).Normal where
  commandFile := h.commandFile
  explicit := h.explicit
  environment := by
    apply Table.normal_ofList
    intro e he
    obtain ⟨v, -, rfl⟩ := List.mem_map.mp he
    exact normalizeKey_normalizeKey v.1

theorem Normal.onlyKnown (h : l.Normal) : l.onlyKnown.Normal where
  commandFile := h.commandFile
  explicit := h.explicit
  environment := by
    have hsub : (l.environment.entries.filter fun e => isKnown e.1).Sublist l.environment.entries :=
      List.filter_sublist
    exact ⟨h.environment.nodup.sublist (hsub.map Prod.fst),
      fun k hk => h.environment.fixed k ((hsub.map Prod.fst).subset hk)⟩

theorem Normal.withEnvironment (h : l.Normal) (vars : List (String × String)) :
    (l.withEnvironment vars).Normal := by
  rw [← onlyKnown_withWholeEnvironment]
  exact (h.withWholeEnvironment vars).onlyKnown

theorem Normal.withCommandText (h : l.Normal) (text : String) : (l.withCommandText text).Normal :=
  { h with commandFile := normal_readProperties text }

theorem Normal.withCommandFile {fs : Files} {path : String} (h : l.Normal)
    (hread : l.withCommandFile fs path = .ok l') : l'.Normal := by
  unfold Layers.withCommandFile at hread
  split at hread
  · cases hread
    exact h.withCommandText _
  · cases hread
    exact h
  · cases hread

end Layers

theorem resolve_eq_ok {fs : Files} {s : Settings} :
    resolve l fs = .ok s ↔ default.applyAll l.entries = .ok s ∧ s.problem? fs = none := by
  unfold resolve
  cases happly : default.applyAll l.entries with
  | error fault => simp
  | ok t =>
    by_cases hts : t = s
    · subst hts
      cases hproblem : t.problem? fs <;> simp [hproblem]
    · cases hproblem : t.problem? fs <;> simp [hproblem, hts]

theorem resolve_onlyKnown (h : l.Normal) (fs : Files) : resolve l.onlyKnown fs = resolve l fs := by
  have hknown : ∀ e ∈ l.environment.entries, Layers.isKnown e.1 = (Key.ofEntry? e).isSome := by
    intro e he
    rw [Key.ofEntry?, h.environment.fixed e.1 (List.mem_map_of_mem he)]
    rfl
  have hfilter : l.onlyKnown.entries.filter (fun e => (Key.ofEntry? e).isSome) =
      l.entries.filter fun e => (Key.ofEntry? e).isSome := by
    simp only [Layers.entries, Layers.onlyKnown, List.filter_append, List.filter_filter]
    congr 2
    apply List.filter_congr
    intro e he
    simp [hknown e he]
  have hall : default.applyAll l.onlyKnown.entries = default.applyAll l.entries := by
    rw [← applyAll_filter, hfilter, applyAll_filter]
  simp only [resolve, hall]

/-- What is promised of settings that are resolved from layers: which they are, that the order of the keys within
a layer says nothing, and that foreign keys of the environment neither do. -/
structure Layered (l : Layers) (fs : Files) : Prop where
  settled : l.Readable → ∃! s, l.Sets s
  resolved : ∀ s, resolve l fs = .ok s ↔ l.Readable ∧ l.Sets s ∧ s.problem? fs = none
  reordered : ∀ l', l.Reordered l' → ∀ s, resolve l' fs = .ok s ↔ resolve l fs = .ok s
  known : resolve l.onlyKnown fs = resolve l fs
  environment : ∀ vars, resolve (l.withEnvironment vars) fs = resolve (l.withWholeEnvironment vars) fs

theorem resolve_eq_ok_of_normal (h : l.Normal) {fs : Files} {s : Settings} :
    resolve l fs = .ok s ↔ l.Readable ∧ l.Sets s ∧ s.problem? fs = none := by
  rw [resolve_eq_ok, applyAll_eq_ok, Layers.readable_entries_iff h, Layers.assigned_entries_iff h, and_assoc]

theorem layered_of_normal (h : l.Normal) (fs : Files) : Layered l fs where
  settled hread := by
    obtain ⟨s, hs⟩ := exists_assigned default ((Layers.readable_entries_iff h).mpr hread)
    refine ⟨s, (Layers.assigned_entries_iff h s).mp hs, fun s' hs' => ?_⟩
    exact ((Layers.assigned_entries_iff h s').mpr hs').unique hs
  resolved s := resolve_eq_ok_of_normal h
  reordered l' hr s := by
    rw [resolve_eq_ok_of_normal h, resolve_eq_ok_of_normal (hr.normal h), hr.readable h, hr.sets h]
  known := resolve_onlyKnown h fs
  environment vars := by
    rw [← Layers.onlyKnown_withWholeEnvironment]
    exact resolve_onlyKnown (h.withWholeEnvironment vars) fs

/-- The command file wants two threads, the environment four, and who starts the job eight. -/
def Layers.crossed : Layers :=
  ((Layers.empty.withCommandText "THREAD-COUNT=2\nbatch_size: 5\nCOMMAND=PAUSE").withEnvironment
    [("THREAD_COUNT", "4"), ("HOME", "/root")]).withExplicit "thread-count" "8"

theorem layered_crossed : Layers.crossed.Normal ∧ Layered Layers.crossed .empty ∧
    resolve Layers.crossed .empty = .ok { default with threadCount := 8, batchSize := 5 } := by
  have hnormal : Layers.crossed.Normal := ((Layers.normal_empty.withCommandText _).withEnvironment _).withExplicit _ _
  exact ⟨hnormal, layered_of_normal hnormal .empty, by decide +kernel⟩

end BatchJob.Settings
