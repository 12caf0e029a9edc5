import BatchJob.Json.Reader
import Mathlib.Tactic.IntervalCases

/-! Reading a string literal gives back the text that was quoted: the lexer takes one piece for each
character, and the pieces spell the text. -/
namespace BatchJob.Json

def piece (c : Char) : Piece :=
  if (shortEscape? c).isNone ∧ isControl c then .unit c.toNat else .char c

theorem lexFrom_cons_of_silent {state next : Lexing} {c : Char}
    (h : state.step c = some (next, [])) (cs : List Char) :
    lexFrom state (c :: cs) = lexFrom next cs := by
  cases hr : lexFrom next cs <;> simp [lexFrom, h, hr]

theorem hexDigit_value {n : Nat} (h : n < 16) : hexValue? (hexDigit n) = some n := by
  interval_cases n <;> rfl

theorem toNat_div_lt {c : Char} (h : isControl c = true) : c.toNat / 16 < 16 := by
  have hc : c.toNat < 0x20 := of_decide_eq_true h
  omega

theorem step_hex {count : Nat} (hc : count ≠ 3) (seen : List Piece) (value : Nat) {n : Nat}
    (h : n < 16) :
    (Lexing.hex seen count value).step (hexDigit n) =
      some (.hex seen (count + 1) (16 * value + n), []) := by
  simp [Lexing.step, hexDigit_value h, hc]

theorem step_lastHex (seen : List Piece) (value : Nat) {n : Nat} (h : n < 16) :
    (Lexing.hex seen 3 value).step (hexDigit n) =
      some (.str (.unit (16 * value + n) :: seen), []) := by
  simp [Lexing.step, hexDigit_value h]

theorem lexFrom_control (seen : List Piece) {c : Char} (hc : isControl c = true) (rest : List Char) :
    lexFrom (.str seen)
        (['\\', 'u', '0', '0', hexDigit (c.toNat / 16), hexDigit (c.toNat % 16)] ++ rest) =
      lexFrom (.str (.unit c.toNat :: seen)) rest := by
  have h₁ : (Lexing.str seen).step '\\' = some (.escape seen, []) := rfl
  have h₂ : (Lexing.escape seen).step 'u' = some (.hex seen 0 0, []) := rfl
  have h₃ : (Lexing.hex seen 0 0).step '0' = some (.hex seen 1 0, []) := rfl
  have h₄ : (Lexing.hex seen 1 0).step '0' = some (.hex seen 2 0, []) := rfl
  have h₅ := step_hex (by omega : 2 ≠ 3) seen 0 (toNat_div_lt hc)
  have h₆ := step_lastHex seen (16 * 0 + c.toNat / 16) (Nat.mod_lt c.toNat (by omega : 16 > 0))
  have hv : 16 * (16 * 0 + c.toNat / 16) + c.toNat % 16 = c.toNat := by omega
  rw [hv] at h₆
  simp only [List.cons_append, List.nil_append]
  rw [lexFrom_cons_of_silent h₁, lexFrom_cons_of_silent h₂, lexFrom_cons_of_silent h₃,
    lexFrom_cons_of_silent h₄, lexFrom_cons_of_silent h₅, lexFrom_cons_of_silent h₆]

theorem shortEscape?_ne_u {c e : Char} (h : shortEscape? c = some e) : e ≠ 'u' := by
  intro he
  have hc := escaped?_shortEscape? h
  rw [he] at hc
  cases hc

theorem ne_quote_of_shortEscape? {c : Char} (h : shortEscape? c = none) : c ≠ '"' ∧ c ≠ '\\' := by
  constructor <;> rintro rfl <;> exact absurd h (by decide)

theorem lexFrom_escapeChar (seen : List Piece) (c : Char) (rest : List Char) :
    lexFrom (.str seen) (escapeChar c ++ rest) = lexFrom (.str (piece c :: seen)) rest := by
  unfold escapeChar piece
  cases hs : shortEscape? c with
  | some e =>
    have h₁ : (Lexing.str seen).step '\\' = some (.escape seen, []) := rfl
    have h₂ : (Lexing.escape seen).step e = some (.str (.char c :: seen), []) := by
      simp [Lexing.step, shortEscape?_ne_u hs, escaped?_shortEscape? hs]
    simp only [List.cons_append, List.nil_append, Option.isNone_some, Bool.false_eq_true,
      false_and, if_false]
    rw [lexFrom_cons_of_silent h₁, lexFrom_cons_of_silent h₂]
  | none =>
    obtain ⟨hq, hb⟩ := ne_quote_of_shortEscape? hs
    by_cases hc : isControl c = true
    · simpa [hc] using lexFrom_control seen hc rest
    · have h₁ : (Lexing.str seen).step c = some (.str (.char c :: seen), []) := by
        simp [Lexing.step, hq, hb, hc]
      simp only [hc, Bool.false_eq_true, if_false, and_false, List.cons_append, List.nil_append]
      exact lexFrom_cons_of_silent h₁ rest

theorem lexFrom_escapeChars (cs : List Char) (seen : List Piece) (rest : List Char) :
    lexFrom (.str seen) (escapeChars cs ++ rest) =
      lexFrom (.str ((cs.map piece).reverse ++ seen)) rest := by
  induction cs generalizing seen with
  | nil => rfl
  | cons c cs ih =>
    rw [escapeChars_cons, List.append_assoc, lexFrom_escapeChar, ih]
    simp

theorem spell_cons_char (c : Char) (ps : List Piece) :
    spell (.char c :: ps) = (spell ps).map (c :: ·) := by rw [spell]

theorem spell_cons_control {c : Char} (h : isControl c = true) (ps : List Piece) :
    spell (.unit c.toNat :: ps) = (spell ps).map (c :: ·) := by
  have hc : c.toNat < 0x20 := of_decide_eq_true h
  have hh : isHighUnit c.toNat = false := by simp [isHighUnit]; omega
  have hl : isLowUnit c.toNat = false := by simp [isLowUnit]; omega
  rw [spell.eq_def (.unit c.toNat :: ps)]
  simp [hh, hl]

theorem spell_pieces (cs : List Char) : spell (cs.map piece) = some cs := by
  induction cs with
  | nil => simp [spell]
  | cons c cs ih =>
    rw [List.map_cons, piece]
    split
    · rename_i h
      rw [spell_cons_control h.2, ih, Option.map_some]
    · rw [spell_cons_char, ih, Option.map_some]

theorem lex_quoteChars (cs : List Char) :
    lex (quoteChars cs) = some [.str (some (String.ofList cs))] := by
  have h₁ : Lexing.between.step '"' = some (.str [], []) := rfl
  have h₂ : lexFrom (.str ((cs.map piece).reverse ++ [])) ['"'] =
      some [.str (some (String.ofList cs))] := by
    simp [lexFrom, Lexing.step, Lexing.finish?, spell_pieces]
  rw [lex, quoteChars, List.cons_append, lexFrom_cons_of_silent h₁, lexFrom_escapeChars, h₂]

/-- Reading what was written gives the text back. -/
theorem read_quote (s : String) : read (quote s) = some (.str (some s)) := by
  have h : lex (quote s).toList = some [.str (some s)] := by
    rw [toList_quote, lex_quoteChars, String.ofList_toList]
  have hr : [Token.str (some s)].foldlM Reader.step Reader.start = some ⟨[], .done (.str (some s))⟩ := rfl
  simp only [read, readChars, h, Option.bind_eq_bind, Option.bind_some, hr]
  rfl

theorem isControl_escapeChar {c d : Char} (h : d ∈ escapeChar c) : isControl d = false := by
  rw [escapeChar] at h
  split at h
  · rename_i e he
    simp only [List.mem_cons, List.not_mem_nil, or_false] at h
    rcases h with rfl | rfl
    · rfl
    · unfold shortEscape? at he
      split at he <;> cases he <;> rfl
  · split at h
    · rename_i hc
      have hn : c.toNat < 0x20 := of_decide_eq_true hc
      have hd : ∀ n < 16, isControl (hexDigit n) = false := by decide
      simp only [List.mem_cons, List.not_mem_nil, or_false] at h
      rcases h with rfl | rfl | rfl | rfl | rfl | rfl
      · rfl
      · rfl
      · rfl
      · rfl
      · exact hd _ (by omega)
      · exact hd _ (by omega)
    · rename_i hc
      rw [List.mem_singleton.mp h]
      simpa using hc

theorem isControl_quoteChars {cs : List Char} {d : Char} (h : d ∈ quoteChars cs) : isControl d = false := by
  simp only [quoteChars, List.cons_append, List.mem_cons, List.mem_append, List.not_mem_nil,
    or_false] at h
  rcases h with rfl | h | rfl
  · rfl
  · obtain ⟨c, _, hc⟩ := List.mem_flatMap.mp h
    exact isControl_escapeChar hc
  · rfl

end BatchJob.Json
