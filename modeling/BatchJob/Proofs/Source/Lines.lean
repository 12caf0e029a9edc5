import BatchJob.Proofs.Text.Bytes
import BatchJob.Source.Lines

/-! What a file of lines holds, and how it is read. A source counts the identifiers when it is started and then finds
each of them in turn, line by line; a content that is no text is refused before anything of it is read. -/
namespace BatchJob

namespace Text

def dropReturn (line : List Char) : List Char := if line.getLast? = some '\r' then line.dropLast else line

/-- The lines of a text. A line break ends a line, and so does a return with a line break; what comes after the last of
them is a line too, if there is anything. -/
def splitLines (text : List Char) : List (List Char) :=
  (text.splitOn '\n').dropLast.map dropReturn ++ (text.splitOn '\n').getLast?.toList.filter (· ≠ [])

/-- The lines of a text that are not blank, without the blanks around them. -/
def identifiers (text : String) : List String :=
  ((splitLines text.toList).map (trim ∘ String.ofList)).filter (· ≠ "")

theorem trim_ofList (line : List Char) : trim (String.ofList line) = String.ofList (trimChars line) := by
  rw [trim, String.toList_ofList]

@[simp] theorem trimEnd_concat_return (line : List Char) : trimEnd (line ++ ['\r']) = trimEnd line := by
  have blank : isBlank '\r' = true := rfl
  simp [trimEnd, blank]

theorem trimChars_dropReturn (line : List Char) : trimChars (dropReturn line) = trimChars line := by
  unfold dropReturn
  split
  · next h =>
    obtain ⟨front, rfl⟩ := List.getLast?_eq_some_iff.mp h
    rw [List.dropLast_concat, trimChars, trimChars, trimStart, trimStart, List.dropWhile_append]
    split
    · next blank => rw [List.isEmpty_iff.mp blank]; rfl
    · rw [trimEnd_concat_return]
  · rfl

/-- Returns and an empty end make no difference to the identifiers. -/
theorem identifiers_eq (text : String) :
    identifiers text = ((text.toList.splitOn '\n').map (trim ∘ String.ofList)).filter (· ≠ "") := by
  obtain ⟨front, last, hs⟩ := List.eq_nil_or_concat _ |>.resolve_left (List.splitOn_ne_nil '\n' text.toList)
  have returns : (trim ∘ String.ofList) ∘ dropReturn = trim ∘ String.ofList := by
    funext line
    simp only [Function.comp_apply, trim_ofList, trimChars_dropReturn]
  rw [identifiers, splitLines, hs]
  have blank : trim "" = "" := by rw [← String.ofList_nil, trim_ofList, trimChars_nil]
  by_cases empty : last = []
  · subst empty
    simp [returns, blank]
  · simp [returns, empty]

end Text

namespace LineReader
open Files (text? encode)

/-- What the lines of some bytes spell, without blanks around it. The first line begins with the bytes in `seen`, last
byte first. -/
def names? (seen : List UInt8) : List UInt8 → Option (List String)
  | [] => (identifier? seen.reverse).map fun id => [id]
  | b :: bs =>
    if b = lineBreak then do return (← identifier? seen.reverse) :: (← names? [] bs)
    else names? (b :: seen) bs

/-- The identifiers in some bytes, if all of them are text. -/
def remaining? (bytes : List UInt8) : Option (List String) := (names? [] bytes).map fun ids => ids.filter (· ≠ "")

theorem names?_of_splitOn {bytes line : List UInt8} {lines : List (List UInt8)}
    (h : bytes.splitOn lineBreak = line :: lines) (seen : List UInt8) :
    names? seen bytes = ((seen.reverse ++ line) :: lines).mapM identifier? := by
  induction bytes generalizing seen line lines with
  | nil =>
    obtain ⟨rfl, rfl⟩ := List.cons.inj h
    rw [names?, List.reverse_nil, List.append_nil, List.mapM_cons, List.mapM_nil]
    cases identifier? seen.reverse <;> rfl
  | cons b bytes ih =>
    rw [List.splitOn_cons_eq_if_modifyHead] at h
    rw [names?]
    by_cases hb : b = lineBreak
    · rw [if_pos (by simpa using hb)] at h
      obtain ⟨rfl, rfl⟩ := List.cons.inj h
      obtain ⟨line, lines, hs⟩ := List.exists_cons_of_ne_nil (List.splitOn_ne_nil lineBreak bytes)
      rw [if_pos hb, ih hs, hs, List.reverse_nil, List.nil_append, List.append_nil,
        @List.mapM_cons _ _ _ _ (line :: lines)]
    · obtain ⟨line, lines, hs⟩ := List.exists_cons_of_ne_nil (List.splitOn_ne_nil lineBreak bytes)
      rw [if_neg (by simpa using hb), hs] at h
      obtain ⟨rfl, rfl⟩ := List.cons.inj h
      rw [if_neg hb, ih hs, List.reverse_cons, List.append_assoc, List.singleton_append]

theorem names?_eq (bytes : List UInt8) : names? [] bytes = (bytes.splitOn lineBreak).mapM identifier? := by
  obtain ⟨line, lines, hs⟩ := List.exists_cons_of_ne_nil (List.splitOn_ne_nil lineBreak bytes)
  rw [names?_of_splitOn hs, hs, List.reverse_nil, List.nil_append]

@[simp] theorem identifier?_encode (line : List Char) :
    identifier? (encode line) = some (Text.trim (String.ofList line)) := by
  rw [identifier?, Files.text?_encode, Option.map_some]

theorem names?_encode (text : List Char) :
    names? [] (encode text) = some ((text.splitOn '\n').map (Text.trim ∘ String.ofList)) := by
  have spelled : identifier? ∘ encode = fun line => some ((Text.trim ∘ String.ofList) line) := by
    funext line
    exact identifier?_encode line
  rw [names?_eq, lineBreak, Files.splitOn_encode, List.mapM_map, spelled]
  exact List.mapM_pure

theorem remaining?_of_text? {bytes : List UInt8} {text : String} (h : text? bytes = some text) :
    remaining? bytes = some (Text.identifiers text) := by
  rw [remaining?, Files.eq_encode_of_text? h, names?_encode, Option.map_some, Text.identifiers_eq]

theorem isSome_text?_of_mapM {lines : List (List UInt8)} {names : List String}
    (h : lines.mapM identifier? = some names) : ∀ line ∈ lines, (text? line).isSome := by
  induction lines generalizing names with
  | nil => simp
  | cons first lines ih =>
    obtain ⟨id, hid, rest, hrest, -⟩ : ∃ id, identifier? first = some id ∧
        ∃ rest, lines.mapM identifier? = some rest ∧ id :: rest = names := by
      simpa [List.mapM_cons, Option.bind_eq_some_iff] using h
    rw [identifier?, Option.map_eq_some_iff] at hid
    obtain ⟨text, ht, -⟩ := hid
    exact List.forall_mem_cons.mpr ⟨by rw [ht]; rfl, ih hrest⟩

theorem remaining?_of_not_text {bytes : List UInt8} (h : text? bytes = none) : remaining? bytes = none := by
  cases hn : names? [] bytes with
  | none => rw [remaining?, hn, Option.map_none]
  | some names =>
    rw [names?_eq] at hn
    have whole := Files.isSome_text?_of_lines (isSome_text?_of_mapM hn)
    rw [h] at whole
    cases whole

theorem scan_of_names? {seen bytes : List UInt8} {names : List String} (h : names? seen bytes = some names)
    (used : Nat) :
    ∃ n, scan seen used bytes = (.ok (names.filter (· ≠ "")).head?, used + n) ∧
      remaining? (bytes.drop n) = some (names.filter (· ≠ "")).tail := by
  induction bytes generalizing seen names used with
  | nil =>
    obtain ⟨id, hid, rfl⟩ := Option.map_eq_some_iff.mp h
    have nothing : remaining? [] = some [] := rfl
    refine ⟨0, ?_, ?_⟩
    · by_cases blank : id = "" <;> simp [scan, hid, blank]
    · by_cases blank : id = "" <;> simp [nothing, blank]
  | cons b bytes ih =>
    rw [names?] at h
    rw [scan]
    by_cases hb : b = lineBreak
    · rw [if_pos hb] at h ⊢
      obtain ⟨id, hid, rest, hrest, rfl⟩ : ∃ id, identifier? seen.reverse = some id ∧
          ∃ rest, names? [] bytes = some rest ∧ id :: rest = names := by
        simpa [Option.bind_eq_some_iff] using h
      rw [hid]
      by_cases blank : id = ""
      · obtain ⟨n, found, left⟩ := ih hrest (used + 1)
        refine ⟨n + 1, ?_, ?_⟩
        · simp [blank, found, Nat.add_assoc, Nat.add_comm 1]
        · simpa [blank] using left
      · exact ⟨1, by simp [blank], by simp [remaining?, hrest, blank]⟩
    · rw [if_neg hb] at h ⊢
      obtain ⟨n, found, left⟩ := ih h (used + 1)
      exact ⟨n + 1, by rw [found, Nat.add_assoc, Nat.add_comm 1], by simpa using left⟩

theorem visible_use (r : LineReader) (content : List UInt8) (used : Nat) :
    (r.use content used).visible content = (r.visible content).drop used := by
  let n := chunk * ((used - r.buffer.length + (chunk - 1)) / chunk)
  let rest := content.drop r.offset
  have enough : used ≤ r.buffer.length + n := by
    simp only [n, chunk]
    omega
  have all : r.visible content = (r.buffer ++ rest.take n) ++ rest.drop n := by
    rw [List.append_assoc, List.take_append_drop, visible]
  have behind : content.drop (r.offset + (rest.take n).length) = rest.drop n := by
    rw [← List.drop_drop]
    exact (congrArg (List.drop _) (List.take_append_drop n rest)).symm.trans List.drop_left
  have shown : (r.use content used).visible content = (r.buffer ++ rest.take n).drop used ++ rest.drop n := by
    rw [← behind]
    rfl
  rw [shown, all]
  by_cases whole : n ≤ rest.length
  · refine (List.drop_append_of_le_length ?_).symm
    rwa [List.length_append, List.length_take, Nat.min_eq_left whole]
  · -- The content was fetched to its end, so nothing comes after the chunks.
    rw [List.drop_eq_nil_of_le (Nat.le_of_not_le whole), List.append_nil, List.append_nil]

theorem next_of_remaining? {r : LineReader} {content : List UInt8} {ids : List String}
    (h : remaining? (r.visible content) = some ids) :
    ∃ later : LineReader, r.next content = (.ok ids.head?, later) ∧ later.document = r.document ∧
      remaining? (later.visible content) = some ids.tail := by
  obtain ⟨names, hn, rfl⟩ := Option.map_eq_some_iff.mp h
  obtain ⟨n, found, left⟩ := scan_of_names? hn 0
  rw [Nat.zero_add] at found
  refine ⟨r.use content n, by rw [next, found], rfl, ?_⟩
  rw [visible_use]
  exact left

end LineReader
end BatchJob
