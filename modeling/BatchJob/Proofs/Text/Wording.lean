import BatchJob.Proofs.Text.Keys
import Mathlib.Data.Bool.AllAny

/-! What a text of properties says, however it is worded. A line says nothing or gives a value to one key, and of
several lines for a key the last one counts. Blanks around anything, lines that say nothing, returns at the ends of
lines, the choice of a separator and the spelling of a key make no difference. -/
namespace BatchJob.Text

namespace Table

variable {key value k v : String} {t u : Table} {es es' : List (String × String)}

def putAll (t : Table) (es : List (String × String)) : Table := es.foldl (fun t e => t.put e.1 e.2) t

@[simp] theorem putAll_nil (t : Table) : t.putAll [] = t := rfl

@[simp] theorem putAll_cons (t : Table) (e : String × String) (es : List (String × String)) :
    t.putAll (e :: es) = (t.put e.1 e.2).putAll es := rfl

theorem putAll_append (t : Table) (es es' : List (String × String)) :
    t.putAll (es ++ es') = (t.putAll es).putAll es' := List.foldl_append

theorem putEntry_cons_self (key value : String) (e : String × String) (h : e.1 = key) :
    putEntry key value (e :: es) = (key, value) :: es := by
  rw [putEntry, if_pos h]

theorem putEntry_cons_of_ne (key value : String) (e : String × String) (h : e.1 ≠ key) :
    putEntry key value (e :: es) = e :: putEntry key value es := by
  rw [putEntry, if_neg h]

theorem putEntry_putEntry_self (key value value' : String) (es : List (String × String)) :
    putEntry key value (putEntry key value' es) = putEntry key value es := by
  induction es with
  | nil => simp [putEntry]
  | cons e es ih =>
    by_cases h : e.1 = key
    · simp [putEntry_cons_self, h]
    · simp [putEntry_cons_of_ne, h, ih]

theorem putEntry_comm (h : key ∈ es.map Prod.fst) (hne : key ≠ k) :
    putEntry key value (putEntry k v es) = putEntry k v (putEntry key value es) := by
  induction es with
  | nil => simp at h
  | cons e es ih =>
    by_cases hkey : e.1 = key
    · have hk : e.1 ≠ k := hkey.trans_ne hne
      rw [putEntry_cons_of_ne k v e hk, putEntry_cons_self key value e hkey, putEntry_cons_self key value e hkey,
        putEntry_cons_of_ne k v (key, value) hne]
    · have hrest : key ∈ es.map Prod.fst := by simpa [Ne.symm hkey] using h
      rw [putEntry_cons_of_ne key value e hkey]
      by_cases hk : e.1 = k
      · rw [putEntry_cons_self k v e hk, putEntry_cons_self k v e hk,
          putEntry_cons_of_ne key value (k, v) (Ne.symm hne)]
      · rw [putEntry_cons_of_ne k v e hk, putEntry_cons_of_ne key value e hkey, ih hrest,
          putEntry_cons_of_ne k v e hk]

theorem mem_keys_put (t : Table) (key value k : String) : k ∈ (t.put key value).keys ↔ k = key ∨ k ∈ t.keys :=
  mem_keys_putEntry key value k t.entries

theorem put_putAll (ht : key ∈ t.keys) (hes : key ∉ es.map Prod.fst) :
    (t.putAll es).put key value = (t.put key value).putAll es := by
  induction es generalizing t with
  | nil => rfl
  | cons e es ih =>
    obtain ⟨hne, hrest⟩ : key ≠ e.1 ∧ key ∉ es.map Prod.fst := by simpa using hes
    have hkey : key ∈ (t.put e.1 e.2).keys := (mem_keys_put ..).mpr (Or.inr ht)
    rw [putAll_cons, putAll_cons, ih hkey hrest]
    simp only [put, putEntry_comm ht hne]

theorem putAll_putEntry (t : Table) (h : (es.map Prod.fst).Nodup) (key value : String) :
    t.putAll (putEntry key value es) = (t.putAll es).put key value := by
  induction es generalizing t with
  | nil => rfl
  | cons e es ih =>
    obtain ⟨hnot, hrest⟩ := List.nodup_cons.mp h
    by_cases hkey : e.1 = key
    · subst hkey
      have hplace : e.1 ∈ (t.put e.1 e.2).keys := (mem_keys_put ..).mpr (Or.inl rfl)
      rw [putEntry_cons_self e.1 value e rfl, putAll_cons, putAll_cons, put_putAll hplace hnot]
      simp only [put, putEntry_putEntry_self]
    · rw [putEntry_cons_of_ne key value e hkey, putAll_cons, putAll_cons, ih _ hrest]

theorem putAll_entries_putAll (t : Table) (hu : u.keys.Nodup) (es : List (String × String)) :
    t.putAll (u.putAll es).entries = (t.putAll u.entries).putAll es := by
  induction es generalizing u with
  | nil => rfl
  | cons e es ih =>
    have hput : t.putAll (u.put e.1 e.2).entries = (t.putAll u.entries).put e.1 e.2 := putAll_putEntry t hu e.1 e.2
    have hnodup : (u.put e.1 e.2).keys.Nodup := nodup_keys_putEntry hu e.1 e.2
    rw [putAll_cons, putAll_cons, ih hnodup, hput]

theorem override_ofList (t : Table) (es : List (String × String)) : t.override (ofList es) = t.putAll es :=
  putAll_entries_putAll t normal_empty.nodup es

theorem get?_putAll (h : (es.map Prod.fst).Nodup) (t : Table) (k : String) :
    (t.putAll es).get? k = (es.lookup k <|> t.get? k) := by
  induction es generalizing t with
  | nil => simp
  | cons e es ih =>
    obtain ⟨hnot, hrest⟩ := List.nodup_cons.mp h
    rw [putAll_cons, ih hrest, get?_put, lookup_cons]
    by_cases hk : k = e.1
    · have hnone : es.lookup k = none := by
        rw [List.lookup_eq_none_iff]
        intro e' he'
        have hne : e'.1 ≠ k := fun heq => hnot (hk ▸ heq ▸ List.mem_map_of_mem he')
        simpa using Ne.symm hne
      simp [hk ▸ hnone, hk]
    · simp [hk]

theorem Normal.get?_override (h : u.Normal) (t : Table) (k : String) :
    (t.override u).get? k = (u.get? k <|> t.get? k) := get?_putAll h.nodup t k

end Table

variable {cs key value line line' before after : List Char} {c : Char}

theorem dropWhile_append_cons {p : Char → Bool} (hc : p c = false) (cs rest : List Char) :
    (cs ++ c :: rest).dropWhile p = cs.dropWhile p ++ c :: rest := by
  have hstop : (c :: rest).dropWhile p = c :: rest := List.dropWhile_cons_of_neg (by simp [hc])
  rw [List.dropWhile_append, hstop]
  split
  · next hnone => rw [List.isEmpty_iff.mp hnone, List.nil_append]
  · rfl

theorem trimChars_eq_nil_iff : trimChars cs = [] ↔ ∀ c ∈ cs, isBlank c = true := by
  have hend : trimChars cs = [] ↔ ∀ c ∈ trimStart cs, isBlank c = true := List.rdropWhile_eq_nil_iff
  rw [hend]
  constructor
  · intro h
    have hnil : trimStart cs = [] := by
      by_contra hne
      have hhead : isBlank ((trimStart cs).head hne) = false := List.head_dropWhile_not isBlank hne
      exact absurd (h _ (List.head_mem hne)) (by simp [hhead])
    exact List.dropWhile_eq_nil_iff.mp hnil
  · intro h
    rw [show trimStart cs = [] from List.dropWhile_eq_nil_iff.mpr h]
    simp

theorem trimChars_append_left (h : ∀ c ∈ before, isBlank c = true) (cs : List Char) :
    trimChars (before ++ cs) = trimChars cs := by
  rw [trimChars, trimStart, List.dropWhile_append_of_pos h]
  rfl

theorem trimEnd_append (h : ∀ c ∈ after, isBlank c = true) (cs : List Char) : trimEnd (cs ++ after) = trimEnd cs := by
  rw [trimEnd, List.reverse_append, List.dropWhile_append_of_pos (by simpa using h)]
  rfl

theorem trimChars_append_right (h : ∀ c ∈ after, isBlank c = true) (cs : List Char) :
    trimChars (cs ++ after) = trimChars cs := by
  rw [trimChars, trimStart, List.dropWhile_append]
  split
  · next hnone =>
    have hcs : trimStart cs = [] := List.isEmpty_iff.mp hnone
    rw [List.dropWhile_eq_nil_iff.mpr h, trimChars, hcs]
  · exact trimEnd_append h _

theorem trimEnd_append_cons (hc : isBlank c = false) (cs rest : List Char) :
    trimEnd (cs ++ c :: rest) = cs ++ c :: trimEnd rest := by
  rw [trimEnd, List.reverse_append, List.reverse_cons, List.append_assoc, List.singleton_append,
    dropWhile_append_cons hc]
  simp [trimEnd]

theorem trimChars_append_cons (hc : isBlank c = false) (cs rest : List Char) :
    trimChars (cs ++ c :: rest) = trimStart cs ++ c :: trimEnd rest := by
  rw [trimChars, trimStart, dropWhile_append_cons hc, trimEnd_append_cons hc]
  rfl

theorem head?_trimChars (cs : List Char) : (trimChars cs).head? = (trimStart cs).head? := by
  cases hstart : trimStart cs with
  | nil => rw [trimChars, hstart]; rfl
  | cons c rest =>
    have hdrop : cs.dropWhile isBlank = c :: rest := hstart
    have hc : isBlank c = false := by
      have hhead := List.head_dropWhile_not isBlank (l := cs) (by simp [hdrop])
      simp only [hdrop] at hhead
      exact hhead
    have hend : trimEnd (c :: rest) = c :: trimEnd rest := trimEnd_append_cons hc [] rest
    rw [trimChars, hstart, hend, List.head?_cons, List.head?_cons]

theorem trimChars_trimStart (cs : List Char) : trimChars (trimStart cs) = trimChars cs := by
  rw [trimChars, trimStart, trimStart, List.dropWhile_idempotent]
  rfl

theorem trimChars_trimEnd (cs : List Char) : trimChars (trimEnd cs) = trimChars cs := by
  have hback : trimEnd cs ++ cs.rtakeWhile isBlank = cs := List.rdropWhile_append_rtakeWhile
  rw [← trimChars_append_right (fun c hc => List.mem_rtakeWhile_imp hc) (trimEnd cs), hback]

theorem normalizeChars_trimStart (cs : List Char) : normalizeChars (trimStart cs) = normalizeChars cs := by
  rw [normalizeChars, trimChars_trimStart, normalizeChars]

theorem lines_append (text rest : List Char) : lines (text ++ '\n' :: rest) = lines text ++ lines rest := by
  induction text with
  | nil => simp [lines, List.splitOn_cons_eq_if_modifyHead]
  | cons c text ih =>
    obtain ⟨line, more, hs⟩ := List.exists_cons_of_ne_nil (List.splitOn_ne_nil '\n' text)
    simp only [lines, List.cons_append] at ih ⊢
    rw [List.splitOn_cons_eq_if_modifyHead, List.splitOn_cons_eq_if_modifyHead, ih, hs]
    split <;> rfl

theorem lines_of_notMem (h : '\n' ∉ line) : lines line = [line] := by
  have hone : (['\n'].intercalate [line]).splitOn '\n' = [line] :=
    List.splitOn_intercalate '\n' (by simpa using h) (by simp)
  rwa [List.intercalate_singleton] at hone

theorem notMem_of_mem_lines {text : List Char} (h : line ∈ lines text) : '\n' ∉ line := by
  induction text generalizing line with
  | nil =>
    obtain rfl : line = [] := by simpa [lines] using h
    exact List.not_mem_nil
  | cons c text ih =>
    obtain ⟨first, more, hs⟩ := List.exists_cons_of_ne_nil (List.splitOn_ne_nil '\n' text)
    rw [lines, List.splitOn_cons_eq_if_modifyHead, hs] at h
    rw [lines, hs] at ih
    split at h
    · rcases List.mem_cons.mp h with rfl | h
      · exact List.not_mem_nil
      · exact ih h
    · next hc =>
      rcases List.mem_cons.mp h with rfl | h
      · have hne : '\n' ≠ c := fun heq => hc (by simpa using heq.symm)
        simpa [hne] using ih List.mem_cons_self
      · exact ih (List.mem_cons_of_mem _ h)

/-- A line that says nothing. -/
inductive Silent (line : List Char) : Prop
  | blank (h : trimChars line = [])
  | comment (h : (trimChars line).head? = some '#' ∨ (trimChars line).head? = some '!')
  | unseparated (h : ∀ c ∈ trimChars line, c ≠ '=' ∧ c ≠ ':')
  | nameless {front rest : List Char} {c : Char} (h : trimChars line = front ++ c :: rest) (hc : c = '=' ∨ c = ':')
      (hfront : ∀ a ∈ front, isBlank a = true)

/-- A line that gives a key its value. -/
inductive Gives (line : List Char) : String → String → Prop
  | entry {front rest : List Char} {c : Char} (h : trimChars line = front ++ c :: rest) (hc : c = '=' ∨ c = ':')
      (first : ∀ a ∈ front, a ≠ '=' ∧ a ≠ ':') (named : ∃ a ∈ front, isBlank a = false)
      (uncommented : (trimChars line).head? ≠ some '#' ∧ (trimChars line).head? ≠ some '!') :
      Gives line (normalizeKey (String.ofList front)) (trim (String.ofList rest))

theorem isSeparator_iff : isSeparator c = true ↔ c = '=' ∨ c = ':' := by
  simp [isSeparator]

theorem isSeparator_eq_false_iff : isSeparator c = false ↔ c ≠ '=' ∧ c ≠ ':' := by
  simp [isSeparator]

theorem isBlank_of_separator (h : c = '=' ∨ c = ':') : isBlank c = false := by
  rcases h with rfl | rfl <;> decide

theorem isComment_iff : isComment cs = true ↔ cs.head? = some '#' ∨ cs.head? = some '!' := by
  cases cs with
  | nil => simp [isComment]
  | cons c cs =>
    by_cases h₁ : c = '#'
    · simp [isComment, h₁]
    · by_cases h₂ : c = '!'
      · simp [isComment, h₂]
      · simp [isComment, h₁, h₂]

theorem splitEntry_of_unseparated (h : ∀ c ∈ line, c ≠ '=' ∧ c ≠ ':') : splitEntry line = none := by
  have hnone : line.dropWhile (fun c => !isSeparator c) = [] := by
    rw [List.dropWhile_eq_nil_iff]
    intro c hc
    simpa using isSeparator_eq_false_iff.mpr (h c hc)
  rw [splitEntry, hnone]

theorem splitEntry_append_cons (hc : c = '=' ∨ c = ':') (hkey : ∀ a ∈ key, a ≠ '=' ∧ a ≠ ':') (value : List Char) :
    splitEntry (key ++ c :: value) = if normalizeChars key = [] then none else
      some (String.ofList (normalizeChars key), String.ofList (trimChars value)) := by
  have hstop : isSeparator c = true := isSeparator_iff.mpr hc
  have hpass : ∀ a ∈ key, (!isSeparator a) = true := fun a ha => by
    simpa using isSeparator_eq_false_iff.mpr (hkey a ha)
  have hdrop : (key ++ c :: value).dropWhile (fun c => !isSeparator c) = c :: value := by
    rw [List.dropWhile_append_of_pos hpass, List.dropWhile_cons_of_neg (by simp [hstop])]
  have htake : (key ++ c :: value).takeWhile (fun c => !isSeparator c) = key := by
    rw [List.takeWhile_append_of_pos hpass, List.takeWhile_cons_of_neg (by simp [hstop]), List.append_nil]
  rw [splitEntry, hdrop, htake]
  cases hname : normalizeChars key with
  | nil => simp
  | cons a name => simp

theorem normalizeChars_eq_nil_iff : normalizeChars key = [] ↔ ∀ a ∈ key, isBlank a = true := by
  rw [normalizeChars, List.map_eq_nil_iff, trimChars_eq_nil_iff]

theorem Silent.lineEntry (h : Silent line) : lineEntry line = none := by
  unfold Text.lineEntry
  cases h with
  | blank h => rw [h]; rfl
  | comment h => rw [if_pos (isComment_iff.mpr h)]
  | unseparated h => rw [splitEntry_of_unseparated h, ite_self]
  | @nameless front rest c h hc hfront =>
    have hkey : ∀ a ∈ front, a ≠ '=' ∧ a ≠ ':' := fun a ha => by
      constructor <;> rintro rfl <;> exact absurd (hfront _ ha) (by decide)
    rw [h, splitEntry_append_cons hc hkey, if_pos (normalizeChars_eq_nil_iff.mpr hfront), ite_self]

theorem Gives.lineEntry {k v : String} (h : Gives line k v) : lineEntry line = some (k, v) := by
  obtain @⟨front, rest, c, h, hc, first, ⟨a, ha, hblank⟩, uncommented⟩ := h
  have hname : normalizeChars front ≠ [] := fun hnil => by
    have hall := normalizeChars_eq_nil_iff.mp hnil a ha
    rw [hblank] at hall
    cases hall
  have hnot : ¬ isComment (trimChars line) = true := fun hcomment =>
    (isComment_iff.mp hcomment).elim uncommented.1 uncommented.2
  rw [Text.lineEntry, if_neg hnot, h, splitEntry_append_cons hc first, if_neg hname]
  simp [normalizeKey, trim]

/-- Every line says nothing or gives a key its value. -/
theorem silent_or_gives (line : List Char) : Silent line ∨ ∃ k v, Gives line k v := by
  by_cases hcomment : (trimChars line).head? = some '#' ∨ (trimChars line).head? = some '!'
  · exact Or.inl (.comment hcomment)
  by_cases hnone : ∀ c ∈ trimChars line, c ≠ '=' ∧ c ≠ ':'
  · exact Or.inl (.unseparated hnone)
  -- The text is cut at its first separator.
  have hcut := List.takeWhile_append_dropWhile (p := fun c => !isSeparator c) (l := trimChars line)
  have hfront : ∀ a ∈ (trimChars line).takeWhile (fun c => !isSeparator c), a ≠ '=' ∧ a ≠ ':' := fun a ha => by
    have hpass := List.mem_takeWhile_imp ha
    exact isSeparator_eq_false_iff.mp (by simpa using hpass)
  cases hrest : (trimChars line).dropWhile (fun c => !isSeparator c) with
  | nil =>
    rw [hrest, List.append_nil] at hcut
    rw [hcut] at hfront
    exact absurd hfront hnone
  | cons c rest =>
    have hc : c = '=' ∨ c = ':' := by
      have hstop := List.head_dropWhile_not (fun c => !isSeparator c) (l := trimChars line) (by simp [hrest])
      simp only [hrest, List.head_cons] at hstop
      exact isSeparator_iff.mp (by simpa using hstop)
    rw [hrest] at hcut
    by_cases hname : ∃ a ∈ (trimChars line).takeWhile (fun c => !isSeparator c), isBlank a = false
    · exact Or.inr ⟨_, _, .entry hcut.symm hc hfront hname (not_or.mp hcomment)⟩
    · refine Or.inl (.nameless hcut.symm hc fun a ha => ?_)
      by_contra hblank
      exact hname ⟨a, ha, by simpa using hblank⟩

theorem lineEntry_eq_none_iff : lineEntry line = none ↔ Silent line := by
  refine ⟨fun h => ?_, Silent.lineEntry⟩
  obtain hsilent | ⟨k, v, hgives⟩ := silent_or_gives line
  · exact hsilent
  · rw [hgives.lineEntry] at h
    cases h

theorem lineEntry_eq_some_iff {k v : String} : lineEntry line = some (k, v) ↔ Gives line k v := by
  refine ⟨fun h => ?_, Gives.lineEntry⟩
  obtain hsilent | ⟨k', v', hgives⟩ := silent_or_gives line
  · rw [hsilent.lineEntry] at h
    cases h
  · rw [hgives.lineEntry] at h
    cases h
    exact hgives

theorem normalizeChar_eq_iff {d : Char} (hd : d = '#' ∨ d = '!') : normalizeChar c = d ↔ c = d := by
  have hcode : d.toNat = 35 ∨ d.toNat = 33 := hd.imp (congrArg Char.toNat) (congrArg Char.toNat)
  by_cases hc : c = '_'
  · subst hc
    rcases hd with rfl | rfl <;> decide
  · rw [normalizeChar, if_neg hc, ← Char.toNat_inj, ← Char.toNat_inj, toNat_toUpper]
    split <;> omega

theorem isComment_normalizeChars (key rest : List Char) (h : normalizeChars key ≠ []) :
    isComment (trimStart key ++ rest) = isComment (normalizeChars key) := by
  have hhead : (normalizeChars key).head? = (trimStart key).head?.map normalizeChar := by
    rw [normalizeChars, List.head?_map, head?_trimChars]
  obtain ⟨c, front, hfront⟩ : ∃ c front, trimStart key = c :: front := by
    cases hstart : trimStart key with
    | nil =>
      rw [hstart] at hhead
      exact absurd (List.head?_eq_none_iff.mp hhead) h
    | cons c front => exact ⟨c, front, rfl⟩
  rw [Bool.eq_iff_iff, isComment_iff, isComment_iff, hhead, hfront]
  simp [normalizeChar_eq_iff]

/-- What stands around the separator is all that counts, the one in its normal form and the other trimmed. -/
theorem lineEntry_append_cons (hc : c = '=' ∨ c = ':') (hkey : ∀ a ∈ key, a ≠ '=' ∧ a ≠ ':') (value : List Char) :
    lineEntry (key ++ c :: value) = if normalizeChars key = [] ∨ isComment (normalizeChars key) = true then none else
      some (String.ofList (normalizeChars key), String.ofList (trimChars value)) := by
  have hstart : ∀ a ∈ trimStart key, a ≠ '=' ∧ a ≠ ':' := fun a ha =>
    hkey a ((List.dropWhile_sublist isBlank).subset ha)
  rw [lineEntry, trimChars_append_cons (isBlank_of_separator hc), splitEntry_append_cons hc hstart,
    normalizeChars_trimStart, trimChars_trimEnd]
  by_cases hname : normalizeChars key = []
  · rw [if_pos hname, ite_self, if_pos (Or.inl hname)]
  · rw [isComment_normalizeChars key _ hname]
    simp only [hname, false_or, if_false]

/-- Two ways to write a line. -/
inductive Reworded : List Char → List Char → Prop
  | refl (line : List Char) : Reworded line line
  | symm {line line' : List Char} (h : Reworded line line') : Reworded line' line
  | trans {line line' line'' : List Char} (h : Reworded line line') (h' : Reworded line' line'') : Reworded line line''
  | padded (line : List Char) {before after : List Char} (hbefore : ∀ c ∈ before, isBlank c = true)
      (hafter : ∀ c ∈ after, isBlank c = true) : Reworded line (before ++ line ++ after)
  | respelled {key key' value value' : List Char} {c c' : Char} (hc : c = '=' ∨ c = ':') (hc' : c' = '=' ∨ c' = ':')
      (hkey : ∀ a ∈ key, a ≠ '=' ∧ a ≠ ':') (hkey' : ∀ a ∈ key', a ≠ '=' ∧ a ≠ ':')
      (hname : normalizeChars key = normalizeChars key') (hvalue : trimChars value = trimChars value') :
      Reworded (key ++ c :: value) (key' ++ c' :: value')

/-- Two ways to write the same lines, with lines in between that say nothing. -/
inductive Alike : List (List Char) → List (List Char) → Prop
  | nil : Alike [] []
  | cons {line line' : List Char} {ls ls' : List (List Char)} (hline : Reworded line line') (h : Alike ls ls') :
      Alike (line :: ls) (line' :: ls')
  | left {line : List Char} {ls ls' : List (List Char)} (hline : Silent line) (h : Alike ls ls') :
    Alike (line :: ls) ls'
  | right {line : List Char} {ls ls' : List (List Char)} (hline : Silent line) (h : Alike ls ls') :
    Alike ls (line :: ls')

theorem Reworded.lineEntry (h : Reworded line line') : lineEntry line = lineEntry line' := by
  induction h with
  | refl => rfl
  | symm _ ih => exact ih.symm
  | trans _ _ ih ih' => exact ih.trans ih'
  | padded line hbefore hafter =>
    rw [Text.lineEntry, Text.lineEntry, trimChars_append_right hafter, trimChars_append_left hbefore]
  | respelled hc hc' hkey hkey' hname hvalue =>
    rw [lineEntry_append_cons hc hkey, lineEntry_append_cons hc' hkey', hname, hvalue]

theorem Alike.filterMap_lineEntry {ls ls' : List (List Char)} (h : Alike ls ls') :
    ls.filterMap lineEntry = ls'.filterMap lineEntry := by
  induction h with
  | nil => rfl
  | cons hline _ ih => rw [List.filterMap_cons, List.filterMap_cons, hline.lineEntry, ih]
  | left hline _ ih => rw [List.filterMap_cons, hline.lineEntry, ih]
  | right hline _ ih => rw [List.filterMap_cons, hline.lineEntry, ih]

theorem readProperties_of_alike {text other : String} (h : Alike (lines text.toList) (lines other.toList)) :
    readProperties text = readProperties other := by
  rw [readProperties, readProperties, entries, entries, h.filterMap_lineEntry]

/-- The text with a return before each of its line breaks. -/
def withReturns (text : String) : String := String.ofList (['\r', '\n'].intercalate (lines text.toList))

theorem alike_returns {ls : List (List Char)} (hne : ls ≠ []) (h : ∀ line ∈ ls, '\n' ∉ line) :
    Alike ls (lines (['\r', '\n'].intercalate ls)) := by
  induction ls with
  | nil => exact absurd rfl hne
  | cons line ls ih =>
    obtain ⟨hline, hrest⟩ := List.forall_mem_cons.mp h
    cases ls with
    | nil =>
      rw [List.intercalate_singleton, lines_of_notMem hline]
      exact .cons (.refl line) .nil
    | cons second ls =>
      have hreturn : '\n' ∉ line ++ ['\r'] := by simpa using hline
      have htext : ['\r', '\n'].intercalate (line :: second :: ls) =
          (line ++ ['\r']) ++ '\n' :: ['\r', '\n'].intercalate (second :: ls) := by
        rw [List.intercalate_cons_cons]
        simp
      have hpadded : Reworded line (line ++ ['\r']) := by
        have hblank : ∀ c ∈ ['\r'], isBlank c = true := List.forall_mem_singleton.mpr (by decide)
        simpa using Reworded.padded line (List.forall_mem_nil _) hblank
      rw [htext, lines_append, lines_of_notMem hreturn]
      exact .cons hpadded (ih (by simp) hrest)

theorem readProperties_withReturns (text : String) : readProperties (withReturns text) = readProperties text := by
  refine (readProperties_of_alike ?_).symm
  rw [withReturns, String.toList_ofList]
  exact alike_returns (List.splitOn_ne_nil '\n' _) fun _ => notMem_of_mem_lines

theorem readProperties_append (text more : String) :
    readProperties (text ++ "\n" ++ more) = (readProperties text).override (readProperties more) := by
  have hlines : lines (text ++ "\n" ++ more).toList = lines text.toList ++ lines more.toList := by
    rw [← lines_append]
    simp
  have hall : readProperties (text ++ "\n" ++ more) =
      Table.empty.putAll (entries text.toList ++ entries more.toList) := by
    rw [readProperties, entries, hlines, List.filterMap_append]
    rfl
  rw [hall, Table.putAll_append]
  exact (Table.override_ofList _ _).symm

theorem readProperties_of_notMem {text : String} (h : '\n' ∉ text.toList) :
    readProperties text = .ofList (lineEntry text.toList).toList := by
  rw [readProperties, entries, lines_of_notMem h]
  cases hentry : lineEntry text.toList <;> simp [hentry]

/-- What is promised of a text of properties. -/
structure Worded (text : String) : Prop where
  below : ∀ more, readProperties (text ++ "\n" ++ more) = (readProperties text).override (readProperties more)
  last : ∀ more key, (readProperties (text ++ "\n" ++ more)).get? key =
    ((readProperties more).get? key <|> (readProperties text).get? key)
  silent : '\n' ∉ text.toList → (readProperties text = .empty ↔ Silent text.toList)
  gives : '\n' ∉ text.toList → ∀ key value, readProperties text = ⟨[(key, value)]⟩ ↔ Gives text.toList key value
  either : Silent text.toList ∨ ∃ key value, Gives text.toList key value
  alike : ∀ other : String, Alike (lines text.toList) (lines other.toList) → readProperties other = readProperties text
  returns : readProperties (withReturns text) = readProperties text
  normal : (readProperties text).Normal

theorem worded_of_text (text : String) : Worded text where
  below more := readProperties_append text more
  last more key := by
    rw [readProperties_append]
    exact (normal_readProperties more).get?_override _ key
  silent h := by
    rw [readProperties_of_notMem h, ← lineEntry_eq_none_iff]
    cases lineEntry text.toList with
    | none => simp [Table.ofList]
    | some e => simp [Table.ofList, Table.empty, Table.put, Table.putEntry]
  gives h key value := by
    rw [readProperties_of_notMem h, ← lineEntry_eq_some_iff]
    cases lineEntry text.toList with
    | none => simp [Table.ofList, Table.empty]
    | some e => simp [Table.ofList, Table.empty, Table.put, Table.putEntry, Prod.ext_iff]
  either := silent_or_gives text.toList
  alike other h := (readProperties_of_alike h).symm
  returns := readProperties_withReturns text
  normal := normal_readProperties text

/-- A comment and blank lines around it, returns, another separator and another spelling: it is the same. -/
theorem worded_of_threadCount :
    '\n' ∉ "THREAD-COUNT=4".toList ∧ Gives "THREAD-COUNT=4".toList "THREAD-COUNT" "4" ∧
      readProperties "# live\r\n\r\n  thread_count : 4 \r\n" = readProperties "THREAD-COUNT=4" ∧
      (readProperties ("THREAD-COUNT=4" ++ "\n" ++ "thread-count: a=b")).get? "THREAD-COUNT" = some "a=b" := by
  have hworded := worded_of_text "THREAD-COUNT=4"
  have hone : '\n' ∉ "THREAD-COUNT=4".toList := by decide
  have hkey : ∀ c ∈ "THREAD-COUNT".toList, c ≠ '=' ∧ c ≠ ':' := List.all_iff_forall_prop.mp (by decide)
  have hkey' : ∀ c ∈ "  thread_count ".toList, c ≠ '=' ∧ c ≠ ':' := List.all_iff_forall_prop.mp (by decide)
  have hline : Reworded ("THREAD-COUNT".toList ++ '=' :: ['4']) ("  thread_count ".toList ++ ':' :: " 4 \r".toList) :=
    .respelled (.inl rfl) (.inr rfl) hkey hkey' (by decide) (by decide)
  have hlines : Alike (lines "THREAD-COUNT=4".toList) (lines "# live\r\n\r\n  thread_count : 4 \r\n".toList) :=
    .right (.comment (by decide)) (.right (.blank (by decide)) (.cons hline (.right (.blank (by decide)) .nil)))
  refine ⟨hone, (hworded.gives hone _ _).mp (by decide +kernel), hworded.alike _ hlines, ?_⟩
  rw [hworded.last]
  decide +kernel

end BatchJob.Text
