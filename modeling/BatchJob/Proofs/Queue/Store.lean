import BatchJob.Proofs.Json.Quoted
import BatchJob.Queue.Store
import Mathlib.Data.List.Basic
import Mathlib.Data.List.TakeWhile

/-! The file behind a queue holds a list of entries, a line for each. A line is read back as the entry
it was written for, and reading takes them in the order in which they were appended. -/
namespace BatchJob.Queue
open Text

namespace Line

theorem decode_encode (entry : String) : decode (encode entry) = some entry := by
  simp [decode, encode, Json.read_quote]

theorem decode_comp_encode : decode ∘ encode = some := by
  funext entry
  rw [Function.comp_apply, decode_encode]

theorem isControl_encode {entry : String} {c : Char} (h : c ∈ (encode entry).toList) :
    Json.isControl c = false := by
  rw [encode, Json.toList_quote] at h
  exact Json.isControl_quoteChars h

theorem newline_not_mem_encode (entry : String) : '\n' ∉ (encode entry).toList := fun h =>
  absurd (isControl_encode h) (by decide)

theorem decode_empty : decode "" = none := by decide

theorem exists_toList_encode (entry : String) :
    ∃ cs, (encode entry).toList = '"' :: cs ++ ['"'] :=
  ⟨Json.escapeChars entry.toList, by rw [encode, Json.toList_quote, Json.quoteChars]⟩

end Line

theorem trimChars_ne_nil {c : Char} (hc : isBlank c = false) (cs : List Char) :
    trimChars (c :: cs) ≠ [] := by
  have hs : trimStart (c :: cs) = c :: cs := by simp [trimStart, hc]
  rw [trimChars, hs, trimEnd]
  intro h
  have hn : (c :: cs).reverse.dropWhile isBlank = [] := by simpa using h
  have hb : isBlank c = true := List.dropWhile_eq_nil_iff.mp hn c (by simp)
  exact absurd hb (by simp [hc])

theorem lineFrom_append (seen line rest : List Char) (hl : '\n' ∉ line)
    (hb : trimChars (seen.reverse ++ line) ≠ []) :
    lineFrom seen (line ++ '\n' :: rest) = some (seen.reverse ++ line, rest) := by
  induction line generalizing seen with
  | nil =>
    have hne : (trimChars seen.reverse).isEmpty = false := by simpa using hb
    simp [lineFrom, hne]
  | cons c line ih =>
    have hc : c ≠ '\n' := fun h => hl (by simp [h])
    have hl' : '\n' ∉ line := fun h => hl (by simp [h])
    have hs : (c :: seen).reverse ++ line = seen.reverse ++ c :: line := by simp
    simp only [List.cons_append, lineFrom, hc, if_false]
    rw [ih (c :: seen) hl' (by rwa [hs]), hs]

theorem firstLine_append {line : List Char} (hl : '\n' ∉ line) (hb : trimChars line ≠ [])
    (rest : List Char) : firstLine (line ++ '\n' :: rest) = some (line, rest) := by
  have h := lineFrom_append [] line rest hl (by rwa [List.reverse_nil, List.nil_append])
  rwa [List.reverse_nil, List.nil_append] at h

theorem trimChars_encode_ne_nil (entry : String) : trimChars (Line.encode entry).toList ≠ [] := by
  obtain ⟨cs, he⟩ := Line.exists_toList_encode entry
  have hq : isBlank '"' = false := by decide
  rw [he, List.cons_append]
  exact trimChars_ne_nil hq _

theorem firstLine_encode (entry : String) (rest : List Char) :
    firstLine ((Line.encode entry).toList ++ '\n' :: rest) =
      some ((Line.encode entry).toList, rest) :=
  firstLine_append (Line.newline_not_mem_encode entry) (trimChars_encode_ne_nil entry) rest

theorem dropReturns_encode (entry : String) :
    dropReturns (Line.encode entry).toList = (Line.encode entry).toList := by
  obtain ⟨cs, he⟩ := Line.exists_toList_encode entry
  have hr : isReturn '"' = false := by decide
  rw [he, dropReturns, List.reverse_append, List.reverse_singleton, List.singleton_append,
    List.dropWhile_cons_of_neg (by simp [hr]), List.reverse_cons, List.reverse_reverse]

namespace Store

def linesOf (es : List String) : List Char := es.flatMap fun e => (Line.encode e).toList ++ ['\n']

/-- The entries in the file that are still to be read, in the order of the file. -/
def entries (s : Store) : List String :=
  (s.content.splitOn '\n').filterMap fun line => Line.decode (String.ofList line)

/-- What is still to be read are the lines of the entries `es`, and where no flush is due all of them
are written. -/
structure Holds (s : Store) (es : List String) : Prop where
  content_eq : s.content = linesOf es
  held_eq : s.unflushed = false → s.held = []
  pending_eq : s.pending = es.length

theorem linesOf_cons (e : String) (es : List String) :
    linesOf (e :: es) = (Line.encode e).toList ++ '\n' :: linesOf es := by
  simp [linesOf]

theorem holds_create : create.Holds [] := ⟨rfl, fun _ => rfl, rfl⟩

variable {s : Store} {es : List String}

theorem Holds.append (h : s.Holds es) (entry : String) :
    (s.append (Line.encode entry)).Holds (es ++ [entry]) where
  content_eq := by rw [content_append, h.content_eq]; simp [linesOf]
  held_eq hf := by cases hf
  pending_eq := by simp [h.pending_eq]

theorem entries_eq (h : s.Holds es) : s.entries = es := by
  rw [entries, h.content_eq]
  clear h
  induction es with
  | nil => simp [linesOf, Line.decode_empty]
  | cons e es ih =>
    rw [linesOf_cons, List.splitOn_append_cons_self,
      List.splitOn_eq_singleton (Line.newline_not_mem_encode e), List.singleton_append,
      List.filterMap_cons, String.ofList_toList, Line.decode_encode, ih]

theorem Holds.held_caughtUp (h : s.Holds es) : s.caughtUp.held = [] := by
  rw [caughtUp]
  split_ifs with hf
  · exact held_flush s
  · exact h.held_eq (by simpa using hf)

/-- When the reader has caught up, all that waits lies before it. -/
theorem Holds.unread_caughtUp (h : s.Holds es) : s.caughtUp.unread = linesOf es := by
  rw [caughtUp]
  split_ifs with hf
  · exact h.content_eq
  · rw [← h.content_eq, content, h.held_eq (by simpa using hf), List.append_nil]

theorem holds_of_written (hh : s.held = []) (hu : s.unread = linesOf es) (hp : s.pending = es.length) :
    s.Holds es where
  content_eq := by rw [content, hh, List.append_nil, hu]
  held_eq _ := hh
  pending_eq := hp

theorem readLine_nil (h : s.Holds []) : s.readLine.1 = none ∧ s.readLine.2.Holds [] := by
  have hl : firstLine s.caughtUp.unread = none := by rw [h.unread_caughtUp]; rfl
  simp only [readLine, hl]
  exact ⟨trivial, holds_of_written h.held_caughtUp rfl (by simpa using h.pending_eq)⟩

theorem readLine_cons {e : String} (h : s.Holds (e :: es)) :
    s.readLine.1 = some (Line.encode e) ∧ s.readLine.2.Holds es := by
  have hl : firstLine s.caughtUp.unread = some ((Line.encode e).toList, linesOf es) := by
    rw [h.unread_caughtUp, linesOf_cons, firstLine_encode]
  simp only [readLine, hl, dropReturns_encode, String.ofList_toList]
  exact ⟨trivial, holds_of_written h.held_caughtUp rfl (by simp [h.pending_eq])⟩

end Store
end BatchJob.Queue
