import Mathlib.Data.List.TakeWhile
import Dawn.Sql.Execute

/-!
# Reading tokens from a text

The parts of `next_token`, where the text ends, and what is taken from the token that is given.

If all that is left is one character of a word or a sign, then a call returns true and does not move: at the end of
the text `next_char` stays, but `back` moves. The caller gets this token forever (`Stuck.not_stops`).

A token that is an integer is given the type `DECIMAL` if that is the type of the token before it. Otherwise the
token before has no influence on what is read (`tokens_agree_iff`).
-/

namespace Dawn

namespace Lex

/-! ## The parts of a call -/

theorem nextToken_eq (tk : Token) (lex : Lex) : nextToken tk lex = readToken tk (scan isBlank lex.before lex.after).2.1
      (scan isBlank lex.before lex.after).2.2 := rfl

section Strings

variable (tk : Token) (buf before after : List UInt8) {c : UInt8}

theorem readString_quote (h : c = 34 ∨ c = 39) :
    readString tk buf before (c :: after) = (true, ⟨.STRING, .varchar buf⟩, ⟨c :: before, after⟩) := by
  rw [readString.eq_def]
  rcases h with rfl | rfl <;> simp

theorem readString_escape (c : UInt8) :
    readString tk buf before (92 :: c :: after) = readString tk (buf ++ [c]) (c :: 92 :: before) after := rfl

theorem readString_char (h0 : c ≠ 0) (hquote : ¬ (c = 34 ∨ c = 39)) (hslash : c ≠ 92) :
    readString tk buf before (c :: after) = readString tk (buf ++ [c]) (c :: before) after := by
  rw [readString.eq_def]
  simp [h0, hquote, hslash]

end Strings

section Scan

variable {p : UInt8 → Bool} {before rest w : List UInt8} {c : UInt8}

theorem scan_append (hw : ∀ x ∈ w, p x = true) (hc : p c = false) :
    scan p before (w ++ c :: rest) = (w, c, ⟨c :: (w.reverse ++ before), rest⟩) := by
  induction w generalizing before with
  | nil => simp [scan, hc]
  | cons x w ih =>
    rw [List.cons_append, scan, if_pos (hw x List.mem_cons_self), ih fun y hy => hw y (List.mem_cons_of_mem x hy)]
    simp

theorem scan_all (hw : ∀ x ∈ w, p x = true) : scan p before w = (w, 0, ⟨w.reverse ++ before, []⟩) := by
  induction w generalizing before with
  | nil => rfl
  | cons x w ih =>
    rw [scan, if_pos (hw x List.mem_cons_self), ih fun y hy => hw y (List.mem_cons_of_mem x hy)]
    simp

theorem split_scan (p : UInt8 → Bool) (after : List UInt8) :
    (∃ w c rest, after = w ++ c :: rest ∧ (∀ x ∈ w, p x = true) ∧ p c = false) ∨ ∀ x ∈ after, p x = true := by
  induction after with
  | nil => exact Or.inr fun x hx => absurd hx List.not_mem_nil
  | cons c after ih =>
    by_cases hc : p c = true
    · rcases ih with ⟨w, d, rest, rfl, hw, hd⟩ | hall
      · exact Or.inl ⟨c :: w, d, rest, rfl, List.forall_mem_cons.mpr ⟨hc, hw⟩, hd⟩
      · exact Or.inr (List.forall_mem_cons.mpr ⟨hc, hall⟩)
    · exact Or.inl ⟨[], c, after, rfl, fun x hx => absurd hx List.not_mem_nil, by simpa using hc⟩

end Scan

/-! ## The end of a text -/

open SqlExecute

/-- What is left is one character that a word or a sign can end in. -/
def Stuck (lex : Lex) : Prop := ∃ c, lex.after = [c] ∧ (isWord c ∨ c = 60 ∨ c = 62)

theorem lookup_symbols_eq_none {c : UInt8} (h : isWord c ∨ c = 60 ∨ c = 62) : symbols.lookup c = none := by
  rw [List.lookup_eq_none_iff]
  intro p hp
  rw [bne_iff_ne]
  rintro rfl
  revert p
  decide

theorem isBlank_eq_false {c : UInt8} (h : isWord c ∨ c = 60 ∨ c = 62) : isBlank c = false := by
  by_contra hb
  simp only [isBlank, Bool.not_eq_false, decide_eq_true_eq] at hb
  rcases hb with rfl | rfl <;> revert h <;> decide

theorem readId_end (tk : Token) (before : List UInt8) {w : List UInt8} (hw : ∀ y ∈ w, isWord y = true) :
    ∃ tk', readId tk ⟨before, w⟩ = (true, tk', back ⟨w.reverse ++ before, []⟩) := by
  unfold readId
  dsimp only
  rw [scan_all hw, if_neg fun h => absurd (show (0 : UInt8) = 32 from h.1) (by decide)]
  split <;> exact ⟨_, rfl⟩

theorem Stuck.nextToken_eq {lex : Lex} (h : Stuck lex) (tk : Token) : ∃ tk', nextToken tk lex = (true, tk', lex) := by
  obtain ⟨before, after⟩ := lex
  obtain ⟨c, hc, hopen⟩ := h
  obtain rfl : after = [c] := hc
  have hscan : scan isBlank before [c] = ([], c, ⟨c :: before, []⟩) :=
    scan_append (fun x hx => absurd hx List.not_mem_nil) (isBlank_eq_false hopen)
  rw [Lex.nextToken_eq, hscan, readToken, lookup_symbols_eq_none hopen]
  split_ifs with h60 h62 hquote hletter hdigit
  · exact ⟨_, rfl⟩
  · exact ⟨_, rfl⟩
  · rcases hquote with rfl | rfl <;> exact absurd hopen (by decide)
  · exact readId_end tk (c :: before) fun y hy => absurd hy List.not_mem_nil
  · exact ⟨_, rfl⟩
  · simp [isWord, h60, h62, hletter, hdigit] at hopen

theorem Stuck.not_stops {lex : Lex} (h : Stuck lex) (tk : Token) :
    ¬∃ ts tk' lex', Stops nextToken tk lex ts tk' lex' := by
  rintro ⟨ts, tk', lex', ht, hf⟩
  have hlex : lex' = lex := ht.invariant (P := fun s => s.2 = lex) (fun s tk₁ s' hs hread => by
    obtain ⟨tk₂, hnext⟩ := h.nextToken_eq s.1
    have heq := hread.1
    rw [hs, hnext] at heq
    exact (congrArg (fun r => r.2.2) heq).symm) rfl
  obtain ⟨tk₂, hnext⟩ := h.nextToken_eq tk'
  rw [hlex, hnext] at hf
  cases hf

theorem readToken_zero (tk : Token) (lex : Lex) : readToken tk 0 lex = (false, tk, lex) := rfl

theorem ofText_eq {sql : List UInt8} (hlen : sql.length < 2^31) : ofText sql = ⟨[], sql⟩ := by
  rw [ofText, wrap32_of_isI32 ⟨by omega, by omega⟩, Int.toNat_natCast, List.take_length]

/-! ## The token that was there before -/

/-- The types of tokens that have a value. -/
def valued : List TokenType := [.ID, .STRING, .INT_NUM, .DECIMAL_NUM]

/-- Two calls return the same boolean, and if it is true, then tokens of the same type, with the same value if the
type has one. -/
def TokensAgree (r₁ r₂ : Bool × Token × Lex) : Prop :=
  r₁.1 = r₂.1 ∧ (r₁.1 = true → r₁.2.1.type = r₂.2.1.type ∧ (r₁.2.1.type ∈ valued → r₁.2.1.val = r₂.2.1.val))

/-- The next token is an integer: digits with no point after them. -/
def integerNext (after : List UInt8) : Bool :=
  match after.dropWhile isBlank with
  | [] => false
  | c :: rest => isDigit c && (rest.dropWhile isDigit).head? != some 46

section Agree

variable {tk₁ tk₂ : Token} {type : TokenType} {lex : Lex}

theorem TokensAgree.refl (r : Bool × Token × Lex) : TokensAgree r r := ⟨rfl, fun _ => ⟨rfl, fun _ => rfl⟩⟩

theorem TokensAgree.fail {r1 r2 : Token × Lex} : TokensAgree (false, r1) (false, r2) := ⟨rfl, fun h => by cases h⟩

theorem TokensAgree.of_type (h : type ∉ valued) (lex1 lex2 : Lex) :
    TokensAgree (true, { tk₁ with type }, lex1) (true, { tk₂ with type }, lex2) :=
  ⟨rfl, fun _ => ⟨rfl, fun hv => absurd hv h⟩⟩

theorem keyWord_notMem_valued {buf : List UInt8} (h : keyWord buf = some type) : type ∉ valued := by
  obtain ⟨l1, l2, hl, -⟩ := List.lookup_eq_some_iff.mp h
  have hall : ∀ p ∈ keyWords, p.2 ∉ valued := by decide
  exact hall (cStr buf, type) (by rw [hl]; simp)

theorem symbols_notMem_valued {c : UInt8} (h : symbols.lookup c = some type) : type ∉ valued := by
  obtain ⟨l1, l2, hl, -⟩ := List.lookup_eq_some_iff.mp h
  have hall : ∀ p ∈ symbols, p.2 ∉ valued := by decide
  exact hall (c, type) (by rw [hl]; simp)

theorem readSign_agree {eqType : TokenType} (heq : eqType ∉ valued) (h : type ∉ valued) :
    TokensAgree (readSign eqType type tk₁ lex) (readSign eqType type tk₂ lex) := by
  unfold readSign
  split
  · exact .of_type h _ _
  · split_ifs
    · exact .of_type heq _ _
    · exact .of_type h _ _

theorem readString_agree (buf before after : List UInt8) :
    TokensAgree (readString tk₁ buf before after) (readString tk₂ buf before after) := by
  fun_induction readString tk₁ buf before after with
  | case1 | case2 | case4 =>
    rw [readString.eq_def]
    exact .fail
  | case3 buf before c after h0 hquote =>
    rw [readString_quote tk₂ buf before after hquote]
    exact .refl _
  | case5 buf before c after _ _ ih => exact ih
  | case6 buf before c after h0 hquote hslash ih =>
    rw [readString_char tk₂ buf before after h0 hquote hslash]
    exact ih

theorem isSpecialKeyWord_agree (buf : List UInt8) :
    TokensAgree (isSpecialKeyWord buf tk₁ lex) (isSpecialKeyWord buf tk₂ lex) := by
  unfold isSpecialKeyWord
  dsimp only
  split
  · rename_i hkey
    exact .of_type (keyWord_notMem_valued hkey) _ _
  · exact .fail

theorem readId_agree : TokensAgree (readId tk₁ lex) (readId tk₂ lex) := by
  unfold readId
  dsimp only
  split_ifs
  · exact isSpecialKeyWord_agree _
  · split
    · rename_i hkey
      exact .of_type (keyWord_notMem_valued hkey) _ _
    · exact .refl _

theorem readToken_agree {c : UInt8} (hc : isDigit c = false) :
    TokensAgree (readToken tk₁ c lex) (readToken tk₂ c lex) := by
  unfold readToken
  split
  · rename_i hsym
    exact .of_type (symbols_notMem_valued hsym) _ _
  · split_ifs
    · exact readSign_agree (by decide) (by decide)
    · exact readSign_agree (by decide) (by decide)
    · exact readString_agree ..
    · exact readId_agree
    · rename_i hdigit
      rw [hc] at hdigit
      cases hdigit
    · exact .fail

theorem readToken_digit (tk : Token) {c : UInt8} (h : isDigit c = true) : readToken tk c lex = readNumber tk lex := by
  have hother : isLetter c = false ∧ c ≠ 60 ∧ c ≠ 62 ∧ ¬ (c = 34 ∨ c = 39) := by
    simp only [isDigit, isLetter, decide_eq_true_eq, decide_eq_false_iff_not] at *
    grind
  obtain ⟨hletter, h60, h62, hquote⟩ := hother
  have hword : isWord c = true := by rw [isWord, h, Bool.or_true]
  rw [readToken, lookup_symbols_eq_none (Or.inl hword)]
  simp only [if_neg h60, if_neg h62, if_neg hquote, hletter, h, if_true, Bool.false_eq_true, if_false]

theorem readNumber_agree_iff : TokensAgree (readNumber tk₁ lex) (readNumber tk₂ lex) ↔
    ((tk₁.type = .DECIMAL ↔ tk₂.type = .DECIMAL) ∨ (scan isDigit lex.before lex.after).2.1 = 46) := by
  unfold readNumber
  dsimp only
  by_cases hc : (scan isDigit lex.before lex.after).2.1 = 46
  · rw [if_pos hc, if_pos hc]
    refine iff_of_true ?_ (Or.inr hc)
    split_ifs
    · exact .refl _
    · exact .fail
  · rw [if_neg hc, if_neg hc]
    by_cases h1 : tk₁.type = .DECIMAL <;> by_cases h2 : tk₂.type = .DECIMAL <;>
      simp [TokensAgree, h1, h2, hc]

theorem integerNext_append {w rest : List UInt8} {c : UInt8} (hw : ∀ x ∈ w, isBlank x = true) (hc : isBlank c = false) :
    integerNext (w ++ c :: rest) = (isDigit c && (rest.dropWhile isDigit).head? != some 46) := by
  rw [integerNext, List.dropWhile_append_of_pos hw, List.dropWhile_cons_of_neg (by simp [hc])]

theorem scan_eq_iff (p : UInt8 → Bool) (before after : List UInt8) {d : UInt8} (hd : d ≠ 0) :
    (scan p before after).2.1 = d ↔ (after.dropWhile p).head? = some d := by
  rcases split_scan p after with ⟨w, c, rest, rfl, hw, hc⟩ | hall
  · rw [scan_append hw hc, List.dropWhile_append_of_pos hw, List.dropWhile_cons_of_neg (by simp [hc])]
    simp
  · rw [scan_all hall, List.dropWhile_eq_nil_iff.mpr hall]
    simp [hd.symm]

/-- Two calls at the same position of a text agree, whatever tokens they are given, exactly when both tokens or
none of them are of type `DECIMAL`, or the next token is not an integer. -/
theorem tokens_agree_iff (lex : Lex) (tk₁ tk₂ : Token) :
    TokensAgree (nextToken tk₁ lex) (nextToken tk₂ lex) ↔
      ((tk₁.type = .DECIMAL ↔ tk₂.type = .DECIMAL) ∨ integerNext lex.after = false) := by
  obtain ⟨before, after⟩ := lex
  rw [Lex.nextToken_eq, Lex.nextToken_eq]
  rcases split_scan isBlank after with ⟨w, c, rest, rfl, hw, hc⟩ | hall
  · rw [scan_append hw hc, integerNext_append hw hc]
    dsimp only
    cases hdigit : isDigit c with
    | false => exact iff_of_true (readToken_agree hdigit) (Or.inr rfl)
    | true =>
      rw [readToken_digit tk₁ hdigit, readToken_digit tk₂ hdigit, readNumber_agree_iff,
        scan_eq_iff isDigit _ _ (by decide)]
      simp
  · refine iff_of_true ?_ (Or.inr ?_)
    · rw [scan_all hall]
      exact .fail
    · rw [integerNext, List.dropWhile_eq_nil_iff.mpr hall]

/-- The number `1` is read as a token of type `DECIMAL` after one of that type. -/
theorem integer_after_decimal : ¬ TokensAgree (nextToken ⟨.DECIMAL, .integer 0⟩ (ofText (ascii "1 ")))
    (nextToken ⟨.COMMA, .integer 0⟩ (ofText (ascii "1 "))) := by
  have h1 : (nextToken ⟨.DECIMAL, .integer 0⟩ (ofText (ascii "1 "))).1 = true ∧
      (nextToken ⟨.DECIMAL, .integer 0⟩ (ofText (ascii "1 "))).2.1.type = .DECIMAL := by decide
  have h2 : (nextToken ⟨.COMMA, .integer 0⟩ (ofText (ascii "1 "))).2.1.type = .INT_NUM := by decide
  rintro ⟨-, h⟩
  have := (h h1.1).1
  rw [h1.2, h2] at this
  cases this

end Agree

end Lex

end Dawn
