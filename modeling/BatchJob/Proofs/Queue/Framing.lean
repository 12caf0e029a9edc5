import BatchJob.Proofs.Queue.Store

/-! Entries pass through a file unharmed. Each takes up one line, whatever characters it has, and the lines come out in
the order in which they went in, however appending, writing and reading take turns. -/
namespace BatchJob.Queue
open Text

/-- What is promised of the line of an entry: it is one line, not a blank one, and the entry can be told from it. -/
structure Line.Framed (entry line : String) : Prop where
  printable : ∀ c ∈ line.toList, Json.isControl c = false
  unbroken : '\n' ∉ line.toList ∧ '\r' ∉ line.toList
  notBlank : blankText line = false
  decoded : decode line = some entry

theorem Line.framed_encode (entry : String) : Framed entry (encode entry) where
  printable _ := isControl_encode
  unbroken := ⟨newline_not_mem_encode entry, fun h => absurd (isControl_encode h) (by decide)⟩
  notBlank := by simpa [blankText] using trimChars_encode_ne_nil entry
  decoded := decode_encode entry

namespace Store

/-- What is done to a file. A writer whose buffer fills up writes out some of it before it is flushed. -/
inductive Deed where
  | append (entry : String)
  | writeOut (count : Nat)
  | read
  deriving DecidableEq, Repr

def Deed.entry? : Deed → Option String
  | append entry => some entry
  | _ => none

/-- So many characters of the buffer are written, maybe up to the middle of a line. A flush is due as before. -/
def writeOut (s : Store) (count : Nat) : Store :=
  { s with unread := s.unread ++ s.held.take count, buffer := [s.held.drop count] }

def perform (s : Store) : Deed → Store
  | .append entry => s.append (Line.encode entry)
  | .writeOut count => s.writeOut count
  | .read => s.readLine.2

/-- The line that a deed brings, if it is a read and finds one. -/
def line? (s : Store) : Deed → Option String
  | .read => s.readLine.1
  | _ => none

def performAll (s : Store) (deeds : List Deed) : Store := deeds.foldl perform s

/-- The lines that the reads among the deeds find. -/
def linesRead (s : Store) : List Deed → List String
  | [] => []
  | d :: deeds => (s.line? d).toList ++ linesRead (s.perform d) deeds

def appended (deeds : List Deed) : List String := deeds.filterMap Deed.entry?

theorem appended_cons (d : Deed) (deeds : List Deed) :
    appended (d :: deeds) = d.entry?.toList ++ appended deeds := by
  cases h : d.entry? <;> simp [appended, h]

variable {s : Store} {es : List String}

@[simp] theorem held_writeOut (s : Store) (count : Nat) : (s.writeOut count).held = s.held.drop count := by
  simp [held, writeOut]

@[simp] theorem content_writeOut (s : Store) (count : Nat) : (s.writeOut count).content = s.content := by
  rw [content, held_writeOut, writeOut, List.append_assoc, List.take_append_drop, content]

theorem Holds.writeOut (h : s.Holds es) (count : Nat) : (s.writeOut count).Holds es where
  content_eq := by rw [content_writeOut, h.content_eq]
  -- The flag stays up while only a part is written, or the next read would end in the middle of a line.
  held_eq hf := by rw [held_writeOut, h.held_eq hf, List.drop_nil]
  pending_eq := h.pending_eq

theorem Holds.perform (h : s.Holds es) (d : Deed) : ∃ taken rest, es ++ d.entry?.toList = taken ++ rest ∧
    (s.line? d).toList = taken.map Line.encode ∧ (s.perform d).Holds rest := by
  cases d with
  | append entry => exact ⟨[], es ++ [entry], rfl, rfl, h.append entry⟩
  | writeOut count => exact ⟨[], es, List.append_nil es, rfl, h.writeOut count⟩
  | read =>
    cases es with
    | nil =>
      obtain ⟨hline, hrest⟩ := readLine_nil h
      exact ⟨[], [], rfl, by simp [line?, hline], hrest⟩
    | cons e es =>
      obtain ⟨hline, hrest⟩ := readLine_cons h
      exact ⟨[e], es, List.append_nil (e :: es), by simp [line?, hline], hrest⟩

/-- What waited and what was appended was either taken since, in this order, or waits now. -/
theorem Holds.performAll (h : s.Holds es) (deeds : List Deed) : ∃ taken rest, es ++ appended deeds = taken ++ rest ∧
    s.linesRead deeds = taken.map Line.encode ∧ (s.performAll deeds).Holds rest := by
  -- From the first deed on: what the file holds after it is what the others find waiting.
  induction deeds generalizing s es with
  | nil => exact ⟨[], es, List.append_nil es, rfl, h⟩
  | cons d deeds ih =>
    obtain ⟨first, middle, hfirst, hline, hmiddle⟩ := h.perform d
    obtain ⟨others, rest, hothers, hlines, hrest⟩ := ih hmiddle
    refine ⟨first ++ others, rest, ?_, ?_, hrest⟩
    · calc es ++ appended (d :: deeds)
        _ = (es ++ d.entry?.toList) ++ appended deeds := by rw [appended_cons, List.append_assoc]
        _ = first ++ (middle ++ appended deeds) := by rw [hfirst, List.append_assoc]
        _ = (first ++ others) ++ rest := by rw [hothers, List.append_assoc]
    · rw [linesRead, hline, hlines, List.map_append]

/-- What is promised of a file to which the entries `added` were appended and of which the lines `lines` were read. -/
structure Lossless (added lines : List String) (s : Store) : Prop where
  inOrder : lines <+: added.map Line.encode
  decoded : lines.map Line.decode = (added.take lines.length).map some
  next : s.readLine.1 = (added[lines.length]?).map Line.encode
  atEnd : s.readLine.1 = none ↔ lines = added.map Line.encode
  pending_eq : s.pending + lines.length = added.length
  counted : ∀ line, s.readLine.1 = some line → 0 < s.pending ∧ s.readLine.2.pending + 1 = s.pending

theorem Holds.next (h : s.Holds es) : s.readLine.1 = es.head?.map Line.encode := by
  cases es with
  | nil => exact (readLine_nil h).1
  | cons e es => exact (readLine_cons h).1

theorem Holds.counted (h : s.Holds es) {line : String} (hline : s.readLine.1 = some line) :
    0 < s.pending ∧ s.readLine.2.pending + 1 = s.pending := by
  cases es with
  | nil =>
    rw [(readLine_nil h).1] at hline
    cases hline
  | cons e es =>
    rw [(readLine_cons h).2.pending_eq, h.pending_eq, List.length_cons]
    exact ⟨Nat.succ_pos _, rfl⟩

theorem Holds.lossless (h : s.Holds es) (taken : List String) :
    Lossless (taken ++ es) (taken.map Line.encode) s where
  inOrder := by
    rw [List.map_append]
    exact List.prefix_append _ _
  decoded := by
    rw [List.length_map, List.take_left, List.map_map, Line.decode_comp_encode]
  next := by
    rw [h.next, List.length_map, List.getElem?_append_right (le_refl _), Nat.sub_self, List.head?_eq_getElem?]
  atEnd := by
    rw [h.next, List.map_append, List.self_eq_append_right, List.map_eq_nil_iff, Option.map_eq_none_iff,
      List.head?_eq_none_iff]
  pending_eq := by
    rw [h.pending_eq, List.length_map, List.length_append, Nat.add_comm]
  counted _ := h.counted

/-- Every entry fits into a line. From a new file, whatever was done to it, the entries appended so far are read line by
line, each once and in their order; a read finds none only when all of them were read, and the number of those left is
known at any time. -/
theorem lossless_performAll (entry : String) (deeds : List Deed) :
    Line.Framed entry (Line.encode entry) ∧
      Lossless (appended deeds) (create.linesRead deeds) (create.performAll deeds) := by
  obtain ⟨taken, rest, hsplit, hlines, hholds⟩ := holds_create.performAll deeds
  rw [List.nil_append] at hsplit
  rw [hsplit, hlines]
  exact ⟨Line.framed_encode entry, hholds.lossless taken⟩

example : create.linesRead [.append "\n", .read, .read, .append "\r", .writeOut 2, .read] =
    [Line.encode "\n", Line.encode "\r"] := by decide

end Store
end BatchJob.Queue
