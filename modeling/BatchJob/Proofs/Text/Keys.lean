import BatchJob.Text.Properties
import Mathlib.Data.List.DropRight

/-! Keys in normal form, and tables that have nothing but such keys, each of them once. Whatever fills a table
through normal forms fills it in this way. -/
namespace BatchJob.Text

variable {key value k v : String} {t t' : Table} {es : List (String × String)}

theorem toNat_toUpper (c : Char) :
    c.toUpper.toNat = if 97 ≤ c.toNat ∧ c.toNat ≤ 122 then c.toNat - 32 else c.toNat := by
  have hle : 'a'.val ≤ c.val ∧ c.val ≤ 'z'.val ↔ 97 ≤ c.toNat ∧ c.toNat ≤ 122 := Iff.rfl
  unfold Char.toUpper
  by_cases h : 97 ≤ c.toNat ∧ c.toNat ≤ 122
  · rw [dif_pos (hle.mpr h), if_pos h]
    show (c.val + ('A'.val - 'a'.val)).toNat = c.val.toNat - 32
    have hval : c.val.toNat = c.toNat := rfl
    have hstep : ('A'.val - 'a'.val).toNat = 2 ^ 32 - 32 := by decide
    rw [UInt32.toNat_add]
    omega
  · rw [dif_neg (hle.not.mpr h), if_neg h]

theorem toUpper_toUpper (c : Char) : c.toUpper.toUpper = c.toUpper := by
  apply Char.toNat_inj.mp
  rw [toNat_toUpper c.toUpper, toNat_toUpper c]
  by_cases h : 97 ≤ c.toNat ∧ c.toNat ≤ 122
  · simp only [if_pos h]
    exact if_neg (by omega)
  · simp only [if_neg h]

theorem toUpper_ne_underscore {c : Char} (h : c ≠ '_') : c.toUpper ≠ '_' := by
  intro hu
  have hn := congrArg Char.toNat hu
  have hc : c.toNat ≠ '_'.toNat := fun he => h (Char.toNat_inj.mp he)
  have hunderscore : '_'.toNat = 95 := by decide
  rw [toNat_toUpper] at hn
  split at hn <;> omega

theorem normalizeChar_normalizeChar (c : Char) : normalizeChar (normalizeChar c) = normalizeChar c := by
  by_cases h : c = '_'
  · subst h
    decide
  · have hupper : normalizeChar c = c.toUpper := if_neg h
    rw [hupper, normalizeChar, if_neg (toUpper_ne_underscore h), toUpper_toUpper]

theorem isBlank_toUpper (c : Char) : isBlank c.toUpper = isBlank c := by
  simp only [isBlank, toNat_toUpper]
  split
  · rw [Bool.eq_iff_iff]
    simp [blankRanges]
    omega
  · rfl

theorem isBlank_normalizeChar (c : Char) : isBlank (normalizeChar c) = isBlank c := by
  by_cases h : c = '_'
  · subst h
    decide
  · simp [normalizeChar, h, isBlank_toUpper]

theorem trimChars_map {f : Char → Char} (hf : ∀ c, isBlank (f c) = isBlank c) (cs : List Char) :
    trimChars (cs.map f) = (trimChars cs).map f := by
  have hb : isBlank ∘ f = isBlank := funext hf
  simp only [trimChars, trimStart, trimEnd, List.dropWhile_map, ← List.map_reverse, hb]

theorem trimStart_trimEnd_trimStart (cs : List Char) :
    trimStart (trimEnd (trimStart cs)) = trimEnd (trimStart cs) := by
  have hstarts : trimEnd (trimStart cs) <+: trimStart cs := List.rdropWhile_prefix isBlank _
  have hstart : trimStart (trimStart cs) = trimStart cs := List.dropWhile_idempotent isBlank _
  apply List.dropWhile_eq_self_iff.mpr
  intro hpos
  rw [hstarts.getElem hpos]
  exact List.dropWhile_eq_self_iff.mp hstart _

theorem trimChars_trimChars (cs : List Char) : trimChars (trimChars cs) = trimChars cs := by
  simp only [trimChars, trimStart_trimEnd_trimStart]
  exact List.rdropWhile_idempotent isBlank _

theorem normalizeChars_normalizeChars (cs : List Char) :
    normalizeChars (normalizeChars cs) = normalizeChars cs := by
  simp only [normalizeChars, trimChars_map isBlank_normalizeChar, trimChars_trimChars, List.map_map]
  exact List.map_congr_left fun c _ => normalizeChar_normalizeChar c

theorem normalizeKey_ofList (cs : List Char) :
    normalizeKey (String.ofList (normalizeChars cs)) = String.ofList (normalizeChars cs) := by
  simp [normalizeKey, normalizeChars_normalizeChars]

theorem normalizeKey_normalizeKey (key : String) : normalizeKey (normalizeKey key) = normalizeKey key :=
  normalizeKey_ofList key.toList

namespace Table

/-- Every key is a normal form and has one value. -/
structure Normal (t : Table) : Prop where
  nodup : t.keys.Nodup
  fixed : ∀ k ∈ t.keys, normalizeKey k = k

theorem mem_keys_putEntry (key value k : String) (es : List (String × String)) :
    k ∈ (putEntry key value es).map Prod.fst ↔ k = key ∨ k ∈ es.map Prod.fst := by
  induction es with
  | nil => simp [putEntry]
  | cons e rest ih =>
    unfold putEntry
    by_cases h : e.1 = key
    · simp [h]
    · simp only [h, if_false, List.map_cons, List.mem_cons, ih]
      tauto

theorem nodup_keys_putEntry (h : (es.map Prod.fst).Nodup) (key value : String) :
    ((putEntry key value es).map Prod.fst).Nodup := by
  induction es with
  | nil => simp [putEntry]
  | cons e rest ih =>
    obtain ⟨hnot, hrest⟩ := List.nodup_cons.mp h
    unfold putEntry
    by_cases he : e.1 = key
    · subst he
      simpa using ⟨by simpa using hnot, hrest⟩
    · rw [if_neg he, List.map_cons, List.nodup_cons, mem_keys_putEntry]
      exact ⟨fun hor => hor.elim he hnot, ih hrest⟩

theorem normal_empty : empty.Normal := ⟨List.nodup_nil, by simp [keys, empty]⟩

theorem Normal.put (h : t.Normal) (hk : normalizeKey key = key) (value : String) :
    (t.put key value).Normal where
  nodup := nodup_keys_putEntry h.nodup key value
  fixed k hmem := by
    obtain rfl | hold := (mem_keys_putEntry key value k t.entries).mp hmem
    · exact hk
    · exact h.fixed k hold

theorem Normal.foldl_put (h : t.Normal) (hes : ∀ e ∈ es, normalizeKey e.1 = e.1) :
    (es.foldl (fun t e => t.put e.1 e.2) t).Normal := by
  induction es generalizing t with
  | nil => exact h
  | cons e rest ih =>
    obtain ⟨he, hrest⟩ := List.forall_mem_cons.mp hes
    exact ih (h.put he e.2) hrest

theorem normal_ofList (hes : ∀ e ∈ es, normalizeKey e.1 = e.1) : (ofList es).Normal :=
  normal_empty.foldl_put hes

theorem Normal.get?_eq_some (h : t.Normal) : t.get? k = some v ↔ (k, v) ∈ t.entries := by
  rw [get?, List.lookup_eq_some_iff]
  constructor
  · rintro ⟨before, after, he, -⟩
    simp [he]
  · intro hmem
    obtain ⟨before, after, he⟩ := List.append_of_mem hmem
    refine ⟨before, after, he, fun e hbefore => ?_⟩
    have hnodup := h.nodup
    rw [keys, he, List.map_append, List.map_cons, List.nodup_append] at hnodup
    have hne := hnodup.2.2 e.1 (List.mem_map_of_mem hbefore) k List.mem_cons_self
    simpa using Ne.symm hne

theorem Normal.of_perm (h : t.Normal) (hp : t.entries.Perm t'.entries) : t'.Normal where
  nodup := (hp.map Prod.fst).nodup_iff.mp h.nodup
  fixed k hk := h.fixed k ((hp.map Prod.fst).mem_iff.mpr hk)

theorem Normal.get?_perm (h : t.Normal) (hp : t.entries.Perm t'.entries) (k : String) :
    t'.get? k = t.get? k := by
  apply Option.ext
  intro v
  rw [(h.of_perm hp).get?_eq_some, h.get?_eq_some, hp.mem_iff]

theorem filter_putEntry (p : String → Bool) (key value : String) (es : List (String × String)) :
    (putEntry key value es).filter (fun e => p e.1) =
      if p key then putEntry key value (es.filter fun e => p e.1) else es.filter fun e => p e.1 := by
  induction es with
  | nil => cases hp : p key <;> simp [putEntry, hp]
  | cons e rest ih =>
    by_cases he : e.1 = key
    · subst he
      cases hp : p e.1 <;> simp [putEntry, hp]
    · have hput : putEntry key value (e :: rest) = e :: putEntry key value rest := by simp [putEntry, he]
      cases hp : p e.1 with
      | false => simp only [hput, List.filter_cons, hp, ih, Bool.false_eq_true, if_false]
      | true => cases hk : p key <;> simp [putEntry, he, hp, hk, ih]

theorem entries_foldl_put_filter (p : String → Bool) (es : List (String × String)) (t : Table) :
    ((es.filter fun e => p e.1).foldl (fun (t : Table) e => t.put e.1 e.2)
        ⟨t.entries.filter fun e => p e.1⟩).entries =
      (es.foldl (fun (t : Table) e => t.put e.1 e.2) t).entries.filter fun e => p e.1 := by
  induction es generalizing t with
  | nil => rfl
  | cons e rest ih =>
    have hput := filter_putEntry p e.1 e.2 t.entries
    have hrest := ih (t.put e.1 e.2)
    cases hp : p e.1 with
    | false =>
      rw [hp, if_neg (by decide)] at hput
      rwa [List.filter_cons_of_neg (by simp [hp]), List.foldl_cons, ← hput]
    | true =>
      rw [hp, if_pos rfl] at hput
      rwa [List.filter_cons_of_pos (by simp [hp]), List.foldl_cons, List.foldl_cons, put, ← hput]

/-- Keys can as well be dropped before the table is filled. -/
theorem entries_ofList_filter (p : String → Bool) (es : List (String × String)) :
    (ofList (es.filter fun e => p e.1)).entries = (ofList es).entries.filter fun e => p e.1 :=
  entries_foldl_put_filter p es empty

end Table

theorem normalizeKey_of_splitEntry {line : List Char} {e : String × String} (h : splitEntry line = some e) :
    normalizeKey e.1 = e.1 := by
  unfold splitEntry at h
  split at h
  · cases h
  · split at h
    · cases h
    · cases h
      exact normalizeKey_ofList _

theorem normalizeKey_of_lineEntry {line : List Char} {e : String × String} (h : lineEntry line = some e) :
    normalizeKey e.1 = e.1 := by
  by_cases hc : isComment (trimChars line)
  · simp [lineEntry, hc] at h
  · simp only [lineEntry, hc] at h
    exact normalizeKey_of_splitEntry h

theorem normal_readProperties (text : String) : (readProperties text).Normal := by
  apply Table.normal_ofList
  intro e he
  obtain ⟨line, -, hline⟩ := List.mem_filterMap.mp he
  exact normalizeKey_of_lineEntry hline

end BatchJob.Text
