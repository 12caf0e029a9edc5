import BatchJob.Files
import Mathlib.Data.List.Basic

/-! Texts as bytes. The byte of a line break stands in no other character, so the lines can be told
apart before the bytes are read as text, and bytes are a text exactly when every line of them is. -/
namespace BatchJob.Files

def encode (text : List Char) : List UInt8 := text.flatMap String.utf8EncodeChar

@[simp] theorem encode_nil : encode [] = [] := rfl

@[simp] theorem encode_cons (c : Char) (text : List Char) :
    encode (c :: text) = String.utf8EncodeChar c ++ encode text := List.flatMap_cons

@[simp] theorem encode_append (text rest : List Char) :
    encode (text ++ rest) = encode text ++ encode rest := List.flatMap_append

@[simp] theorem text?_encode (text : List Char) : text? (encode text) = some (String.ofList text) := by
  have bytes : (encode text).toByteArray = (String.ofList text).toByteArray :=
    String.toByteArray_ofList.symm
  unfold text? String.fromUTF8?
  rw [bytes, dif_pos (String.ofList text).isValidUTF8]
  rfl

theorem eq_encode_of_text? {bytes : List UInt8} {text : String} (h : text? bytes = some text) :
    bytes = encode text.toList := by
  unfold text? String.fromUTF8? at h
  split at h
  · obtain rfl := Option.some.inj h
    have same : ∀ text : String, text.toByteArray = (encode text.toList).toByteArray := fun text => by
      rw [encode, ← List.utf8Encode, ← String.toByteArray_ofList, String.ofList_toList]
    have bytesOf := congrArg (fun b : ByteArray => b.data.toList) (same (.fromUTF8 bytes.toByteArray ‹_›))
    rwa [List.toList_data_toByteArray, String.fromUTF8, List.toList_data_toByteArray] at bytesOf
  · cases h

@[simp] theorem encode_lineBreak : String.utf8EncodeChar '\n' = [10] := rfl

theorem mod_of_eq_ofNat {n : Nat} (h : (10 : UInt8) = UInt8.ofNat n) : n % 256 = 10 := by
  have value := congrArg UInt8.toNat h
  rw [UInt8.toNat_ofNat'] at value
  exact value.symm

/-- In the bytes of a character beyond the first 128 the highest bit is set. -/
theorem eq_lineBreak_of_mem {c : Char} (h : 10 ∈ String.utf8EncodeChar c) : c = '\n' := by
  unfold String.utf8EncodeChar at h
  simp only at h
  split at h
  · have code : c.val.toNat = 10 := by
      have := mod_of_eq_ofNat (List.mem_singleton.mp h)
      omega
    exact Char.ext (UInt32.toNat_inj.mp code)
  · exfalso
    split at h
    · simp only [List.mem_cons, List.not_mem_nil, or_false] at h
      rcases h with h | h <;> have := mod_of_eq_ofNat h <;> omega
    · split at h
      · simp only [List.mem_cons, List.not_mem_nil, or_false] at h
        rcases h with h | h | h <;> have := mod_of_eq_ofNat h <;> omega
      · simp only [List.mem_cons, List.not_mem_nil, or_false] at h
        rcases h with h | h | h | h <;> have := mod_of_eq_ofNat h <;> omega

theorem splitOn_append_of_notMem {b : UInt8} {front : List UInt8} (h : b ∉ front)
    {back line : List UInt8} {lines : List (List UInt8)} (hb : back.splitOn b = line :: lines) :
    (front ++ back).splitOn b = (front ++ line) :: lines := by
  induction front with
  | nil => exact hb
  | cons a front ih =>
    rw [List.mem_cons, not_or] at h
    rw [List.cons_append, List.splitOn_cons_eq_if_modifyHead, if_neg (by simpa using Ne.symm h.1),
      ih h.2]
    rfl

theorem splitOn_encode (text : List Char) :
    (encode text).splitOn 10 = (text.splitOn '\n').map encode := by
  induction text with
  | nil => rfl
  | cons c text ih =>
    rw [encode_cons, List.splitOn_cons_eq_if_modifyHead]
    by_cases h : c = '\n'
    · subst h
      rw [encode_lineBreak, List.singleton_append, List.splitOn_cons_eq_if_modifyHead]
      simp [ih]
    · obtain ⟨line, lines, hs⟩ := List.exists_cons_of_ne_nil (List.splitOn_ne_nil '\n' text)
      rw [hs] at ih ⊢
      rw [splitOn_append_of_notMem (fun b => h (eq_lineBreak_of_mem b)) ih, if_neg (by simpa using h)]
      rfl

theorem encode_intercalate (lines : List (List Char)) :
    encode (['\n'].intercalate lines) = [10].intercalate (lines.map encode) := by
  induction lines with
  | nil => rfl
  | cons line lines ih =>
    cases lines with
    | nil => simp
    | cons second lines =>
      rw [List.intercalate_cons_cons, List.map_cons, List.map_cons, List.intercalate_cons_cons,
        encode_append, encode_append, ih]
      rfl

theorem isSome_text?_of_lines {bytes : List UInt8}
    (h : ∀ line ∈ bytes.splitOn 10, (text? line).isSome) : (text? bytes).isSome := by
  let lines := (bytes.splitOn 10).map fun line => ((text? line).getD "").toList
  have spelled : lines.map encode = bytes.splitOn 10 := by
    rw [List.map_map]
    refine List.map_congr_left (fun line mem => ?_) |>.trans (List.map_id _)
    obtain ⟨text, ht⟩ := Option.isSome_iff_exists.mp (h line mem)
    rw [Function.comp_apply, ht]
    exact (eq_encode_of_text? ht).symm
  have whole : bytes = encode (['\n'].intercalate lines) := by
    rw [encode_intercalate, spelled, List.intercalate_splitOn]
  rw [whole, text?_encode]
  rfl

end BatchJob.Files
