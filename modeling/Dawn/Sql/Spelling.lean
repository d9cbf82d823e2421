import Dawn.Sql.Tokens

/-!
# How tokens are spelled

The tokens of a text, by the text alone: `Spells` are the tokens as they stand in a text, and `Unreadable` is what no
token is read from. The lexer reads the one (`Spells.nextToken_eq`) and returns false at the other
(`Unreadable.nextToken_eq`). There is nothing else (`nextToken_cases`), but for a word, a number or a sign at the very
end of a text, which is read again and again.
-/

namespace Dawn

namespace Lex

open SqlExecute

/-- What stands between the quotes of a string, and the string that is meant. -/
inductive Quoted : List UInt8 → List UInt8 → Prop
  | nil : Quoted [] []
  | char {c : UInt8} {w text : List UInt8} (h0 : c ≠ 0) (hquote : ¬ (c = 34 ∨ c = 39)) (hslash : c ≠ 92)
      (h : Quoted w text) : Quoted (c :: w) (c :: text)
  | escaped (c : UInt8) {w text : List UInt8} (h : Quoted w text) : Quoted (92 :: c :: w) (c :: text)

/-- The two words of the keyword that has two. -/
def specials : List (List UInt8 × List UInt8) :=
  [(ascii "primary", ascii "key"), (ascii "PRIMARY", ascii "KEY")]

/-- The token that a word is. -/
def wordToken (tk : Token) (w : List UInt8) : Token :=
  match keyWord w with
  | some type => { tk with type }
  | none => ⟨.ID, .varchar w⟩

/-- A text is a token if another text stands after it. The token before it is given. -/
inductive Spells (tk : Token) : List UInt8 → List UInt8 → Token → Prop
  | symbol {x : UInt8} {rest : List UInt8} {type : TokenType} (h : symbols.lookup x = some type) :
      Spells tk [x] rest { tk with type }
  | less {c : UInt8} {rest : List UInt8} (hc : c ≠ 61) : Spells tk [60] (c :: rest) { tk with type := .LESS_SIGN }
  | lessEq {rest : List UInt8} : Spells tk [60, 61] rest { tk with type := .LE_EQ }
  | greater {c : UInt8} {rest : List UInt8} (hc : c ≠ 61) :
      Spells tk [62] (c :: rest) { tk with type := .GREATER_SIGN }
  | greaterEq {rest : List UInt8} : Spells tk [62, 61] rest { tk with type := .GT_EQ }
  | string {x q : UInt8} {w text rest : List UInt8} (hx : x = 34 ∨ x = 39) (h : Quoted w text)
      (hq : q = 34 ∨ q = 39) : Spells tk (x :: (w ++ [q])) rest ⟨.STRING, .varchar text⟩
  | word {x c : UInt8} {w rest : List UInt8} (hx : isLetter x = true) (hw : ∀ y ∈ w, isWord y = true)
      (hc : isWord c = false) (hspecial : ¬ (c = 32 ∧ x :: w ∈ keyWordsPrefix)) :
      Spells tk (x :: w) (c :: rest) (wordToken tk (x :: w))
  | primaryKey {c : UInt8} {pre key spaces rest : List UInt8} (h : (pre, key) ∈ specials)
      (hspaces : ∀ y ∈ spaces, decide (y = 32) = true) (hc : isWord c = false) :
      Spells tk (pre ++ 32 :: (spaces ++ key)) (c :: rest) { tk with type := .PRIMARY_KEY }
  | integer {x c : UInt8} {w rest : List UInt8} (hw : ∀ y ∈ x :: w, isDigit y = true) (hc : isDigit c = false)
      (hdot : c ≠ 46) : Spells tk (x :: w) (c :: rest)
        ⟨if tk.type = .DECIMAL then .DECIMAL else .INT_NUM, .integer (integerOfDigits (x :: w))⟩
  | decimal {x y c : UInt8} {w fraction rest : List UInt8} (hw : ∀ z ∈ x :: w, isDigit z = true)
      (hfraction : ∀ z ∈ y :: fraction, isDigit z = true) (hc : isDigit c = false) :
      Spells tk (x :: w ++ 46 :: y :: fraction) (c :: rest) ⟨.DECIMAL_NUM, .decimal (x :: w ++ 46 :: y :: fraction)⟩

/-- A text that begins with what no token is read from: a character that no token begins with, a string without an
end, `primary` without `key` after it, or a number that ends with its point. -/
inductive Unreadable : List UInt8 → Prop
  | char {x : UInt8} {rest : List UInt8} (hblank : isBlank x = false) (hsymbol : symbols.lookup x = none)
      (hx : ¬ (isWord x ∨ x = 60 ∨ x = 62 ∨ x = 34 ∨ x = 39)) : Unreadable (x :: rest)
  | string {x : UInt8} {w text rest : List UInt8} (hx : x = 34 ∨ x = 39) (h : Quoted w text)
      (hrest : rest = [] ∨ rest = [92] ∨ rest.head? = some 0) : Unreadable (x :: (w ++ rest))
  | primary {pre rest : List UInt8} (hpre : pre ∈ keyWordsPrefix)
      (hkey : (pre, (rest.dropWhile (· = 32)).takeWhile isWord) ∉ specials) : Unreadable (pre ++ 32 :: rest)
  | point {x : UInt8} {w rest : List UInt8} (hw : ∀ y ∈ x :: w, isDigit y = true)
      (hrest : isDigit (rest.headD 0) = false) : Unreadable (x :: (w ++ 46 :: rest))

section Read

variable {tk : Token} {lex : Lex} {before blanks buf p rest w : List UInt8} {c x : UInt8}

/-! ## The parts of a call, where they end -/

theorem nextToken_blanks (hb : ∀ y ∈ blanks, isBlank y = true) (hx : isBlank x = false) :
    nextToken tk ⟨before, blanks ++ x :: rest⟩ = readToken tk x ⟨x :: (blanks.reverse ++ before), rest⟩ := by
  rw [Lex.nextToken_eq]
  rw [scan_append hb hx]

theorem isWord_of_isLetter (h : isLetter x = true) : isWord x = true := by
  rw [isWord, h, Bool.true_or]

theorem isWord_of_isDigit (h : isDigit x = true) : isWord x = true := by
  rw [isWord, h, Bool.or_true]

theorem readToken_letter (h : isLetter x = true) : readToken tk x lex = readId tk lex := by
  have hother : x ≠ 60 ∧ x ≠ 62 ∧ ¬ (x = 34 ∨ x = 39) := by
    simp only [isLetter, decide_eq_true_eq] at h
    grind
  obtain ⟨h60, h62, hquote⟩ := hother
  rw [readToken, lookup_symbols_eq_none (Or.inl (isWord_of_isLetter h))]
  simp only [if_neg h60, if_neg h62, if_neg hquote, h, if_true]

theorem readToken_quote (h : x = 34 ∨ x = 39) :
    readToken tk x lex = readString tk [] lex.before lex.after := by
  rcases h with rfl | rfl <;> rfl

theorem readId_word (hw : ∀ y ∈ w, isWord y = true) (hc : isWord c = false)
    (hspecial : ¬ (c = 32 ∧ x :: w ∈ keyWordsPrefix)) : readId tk ⟨x :: before, w ++ c :: rest⟩ =
      (true, wordToken tk (x :: w), ⟨w.reverse ++ x :: before, c :: rest⟩) := by
  unfold readId
  dsimp only
  rw [scan_append hw hc]
  simp only [getChar, List.headD_cons, hspecial, if_false, back, wordToken]
  cases keyWord (x :: w) <;> rfl

theorem readId_first (hw : ∀ y ∈ w, isWord y = true) (hspecial : x :: w ∈ keyWordsPrefix) :
    readId tk ⟨x :: before, w ++ 32 :: rest⟩ =
      isSpecialKeyWord (x :: w) tk ⟨32 :: (w.reverse ++ x :: before), rest⟩ := by
  unfold readId
  dsimp only
  rw [scan_append hw (by decide)]
  simp only [getChar, List.headD_cons, hspecial, and_self, if_true]

theorem isSpecialKeyWord_word {spaces : List UInt8}
    (hspaces : ∀ y ∈ spaces, decide (y = 32) = true) {k : UInt8} (hk : k ≠ 32)
    (hw : ∀ y ∈ w, isWord y = true) (hc : isWord c = false) :
    isSpecialKeyWord buf tk ⟨before, spaces ++ k :: (w ++ c :: rest)⟩ = (match keyWord (buf ++ [32, k] ++ w) with
      | some type => (true, { tk with type }, ⟨w.reverse ++ k :: (spaces.reverse ++ before), c :: rest⟩)
      | none => (false, tk, ⟨w.reverse ++ k :: (spaces.reverse ++ before), c :: rest⟩)) := by
  unfold isSpecialKeyWord
  dsimp only
  rw [scan_append hspaces (decide_eq_false hk)]
  dsimp only
  rw [scan_append hw hc]
  rfl

theorem readNumber_digits (hw : ∀ y ∈ w, isDigit y = true) (hc : isDigit c = false) (hdot : c ≠ 46) :
    readNumber tk ⟨x :: before, w ++ c :: rest⟩ =
      (true, ⟨if tk.type = .DECIMAL then .DECIMAL else .INT_NUM, .integer (integerOfDigits (x :: w))⟩,
        ⟨w.reverse ++ x :: before, c :: rest⟩) := by
  unfold readNumber
  dsimp only
  rw [scan_append hw hc, if_neg hdot]
  rfl

theorem readNumber_dot (hw : ∀ y ∈ w, isDigit y = true) : readNumber tk ⟨x :: before, w ++ 46 :: rest⟩ =
      if isDigit (rest.headD 0) then readDecimal (x :: w ++ [46]) ⟨46 :: (w.reverse ++ x :: before), rest⟩
      else (false, tk, ⟨46 :: (w.reverse ++ x :: before), rest⟩) := by
  unfold readNumber
  dsimp only
  rw [scan_append hw (by decide), if_pos rfl]
  rfl

theorem readDecimal_digits (hw : ∀ y ∈ w, isDigit y = true) (hc : isDigit c = false) :
    readDecimal buf ⟨before, w ++ c :: rest⟩ =
      (true, ⟨.DECIMAL_NUM, .decimal (buf ++ w)⟩, ⟨w.reverse ++ before, c :: rest⟩) := by
  unfold readDecimal
  dsimp only
  rw [scan_append hw hc]
  rfl

theorem readNumber_end (tk : Token) (before : List UInt8) (hw : ∀ y ∈ w, isDigit y = true) :
    ∃ tk', readNumber tk ⟨before, w⟩ = (true, tk', back ⟨w.reverse ++ before, []⟩) := by
  unfold readNumber
  rw [scan_all hw]
  exact ⟨_, rfl⟩

theorem readDecimal_end (hw : ∀ y ∈ w, isDigit y = true) : readDecimal buf ⟨before, w⟩ =
      (true, ⟨.DECIMAL_NUM, .decimal (buf ++ w)⟩, back ⟨w.reverse ++ before, []⟩) := by
  unfold readDecimal
  dsimp only
  rw [scan_all hw]

theorem nextToken_digit (hb : ∀ y ∈ blanks, isBlank y = true) (hx : isDigit x = true) :
    nextToken tk ⟨before, blanks ++ x :: rest⟩ = readNumber tk ⟨x :: (blanks.reverse ++ before), rest⟩ := by
  rw [nextToken_blanks hb (isBlank_eq_false (Or.inl (isWord_of_isDigit hx))), readToken_digit tk hx]

theorem stuck_back (hx : isWord x = true) (hw : ∀ y ∈ w, isWord y = true) : Stuck (back ⟨w.reverse ++ x :: before, []⟩) := by
  rcases List.eq_nil_or_concat w with rfl | ⟨w', y, rfl⟩
  · exact ⟨x, rfl, Or.inl hx⟩
  · refine ⟨y, ?_, Or.inl (hw y (by simp))⟩
    simp [back]

theorem readString_quoted {text : List UInt8} (h : Quoted w text) (tk : Token) (buf before rest : List UInt8) :
    readString tk buf before (w ++ rest) = readString tk (buf ++ text) (w.reverse ++ before) rest := by
  induction h generalizing buf before with
  | nil => simp
  | char h0 hquote hslash h ih =>
    rw [List.cons_append, readString_char tk buf before _ h0 hquote hslash, ih]
    simp
  | escaped c h ih =>
    rw [List.cons_append, List.cons_append, readString_escape, ih]
    simp

theorem split_quotes (after : List UInt8) : ∃ w text rest, after = w ++ rest ∧ Quoted w text ∧
    ((rest = [] ∨ rest = [92] ∨ rest.head? = some 0) ∨ ∃ q rest', rest = q :: rest' ∧ (q = 34 ∨ q = 39)) := by
  refine (fun (buf before : List UInt8) => ?_ : List UInt8 → List UInt8 → _) [] []
  fun_induction readString ⟨.STRING, .integer 0⟩ buf before after with
  | case1 => exact ⟨[], [], [], rfl, .nil, Or.inl (Or.inl rfl)⟩
  | case2 buf before after => exact ⟨[], [], 0 :: after, rfl, .nil, Or.inl (Or.inr (Or.inr rfl))⟩
  | case3 buf before c after h0 hquote => exact ⟨[], [], c :: after, rfl, .nil, Or.inr ⟨c, after, rfl, hquote⟩⟩
  | case4 => exact ⟨[], [], [92], rfl, .nil, Or.inl (Or.inr (Or.inl rfl))⟩
  | case5 buf before c after _ _ ih =>
    obtain ⟨w, text, rest, rfl, hw, hrest⟩ := ih
    exact ⟨_, _, rest, rfl, .escaped c hw, hrest⟩
  | case6 buf before c after h0 hquote hslash ih =>
    obtain ⟨w, text, rest, rfl, hw, hrest⟩ := ih
    exact ⟨_, _, rest, rfl, .char h0 hquote hslash hw, hrest⟩

/-! ## The keyword of two words -/

theorem cStr_word (hw : ∀ y ∈ w, isWord y = true) : cStr w = w := by
  refine List.takeWhile_eq_self_iff.mpr fun c hc => decide_eq_true ?_
  rintro rfl
  exact absurd (hw 0 hc) (by decide)

theorem mem_specials {pre key : List UInt8} {type : TokenType} (hpre : pre ∈ keyWordsPrefix)
    (h : keyWord (pre ++ 32 :: key) = some type) : (pre, cStr key) ∈ specials := by
  obtain ⟨l1, l2, hl, -⟩ := List.lookup_eq_some_iff.mp h
  have hmem : (cStr (pre ++ 32 :: key), type) ∈ keyWords := by rw [hl]; simp
  have hnz : ∀ pre ∈ keyWordsPrefix, pre.all (· ≠ 0) = true := by decide
  have hstr : cStr (pre ++ 32 :: key) = pre ++ [32] ++ cStr key := by
    rw [cStr, List.takeWhile_append_of_pos (List.all_eq_true.mp (hnz pre hpre))]
    simp [cStr]
  have hall : ∀ pre ∈ keyWordsPrefix, ∀ p ∈ keyWords, pre ++ [32] <+: p.1 →
      (pre, p.1.drop (pre ++ [32]).length) ∈ specials := by decide +kernel
  rw [hstr] at hmem
  have hspecial := hall pre hpre _ hmem (List.prefix_append _ _)
  rwa [List.drop_left] at hspecial

theorem specials_cases : ∀ s ∈ specials, s.1 ∈ keyWordsPrefix ∧ keyWord (s.1 ++ 32 :: s.2) = some .PRIMARY_KEY ∧
    s.2.all isWord ∧ isWord (s.2.headD 0) := by decide +kernel

theorem specials_ne_nil (pre : List UInt8) : (pre, []) ∉ specials := fun h =>
  absurd (show isWord 0 = true from (specials_cases _ h).2.2.2) (by decide)

theorem isWord_of_special {type : TokenType} (hbuf : buf ∈ keyWordsPrefix) {d : UInt8}
    (h : keyWord (buf ++ [32, d] ++ w) = some type) : isWord d = true := by
  rw [List.append_assoc] at h
  have hword := (specials_cases _ (mem_specials hbuf h)).2.2.2
  -- The keyword does not end with the space, so the character after it is not the terminator.
  by_cases hd : d = 0
  · subst hd
    exact absurd (show isWord 0 = true from hword) (by decide)
  · simpa [cStr, List.takeWhile_cons, hd] using hword

theorem keyWord_special {pre key : List UInt8} (hpre : pre ∈ keyWordsPrefix) (hkey : ∀ y ∈ key, isWord y = true) :
    (keyWord (pre ++ 32 :: key)).isSome ↔ (pre, key) ∈ specials := by
  refine ⟨fun h => ?_, fun h => by rw [(specials_cases _ h).2.1]; rfl⟩
  obtain ⟨type, htype⟩ := Option.isSome_iff_exists.mp h
  have hmem := mem_specials hpre htype
  rwa [cStr_word hkey] at hmem

theorem isSpecialKeyWord_iff {pre : List UInt8} (hpre : pre ∈ keyWordsPrefix) :
    (isSpecialKeyWord pre tk ⟨before, rest⟩).1 = true ↔
      (pre, (rest.dropWhile (· = 32)).takeWhile isWord) ∈ specials := by
  have hscan : ∀ (p : UInt8 → Bool) (before rest : List UInt8), (scan p before rest).1 = rest.takeWhile p ∧
      (scan p before rest).2.1 = (rest.dropWhile p).headD 0 ∧
      (scan p before rest).2.2.after = (rest.dropWhile p).tail := by
    intro p before rest
    induction rest generalizing before with
    | nil => exact ⟨rfl, rfl, rfl⟩
    | cons c rest ih =>
      rw [scan, List.takeWhile_cons, List.dropWhile_cons]
      split_ifs
      · exact ⟨congrArg (c :: ·) (ih _).1, (ih _).2⟩
      · exact ⟨rfl, rfl, rfl⟩
  have hfst : (isSpecialKeyWord pre tk ⟨before, rest⟩).1 = (keyWord (pre ++ [32, (rest.dropWhile (· = 32)).headD 0] ++
      (rest.dropWhile (· = 32)).tail.takeWhile isWord)).isSome := by
    unfold isSpecialKeyWord
    dsimp only
    rw [(hscan _ before rest).2.1, (hscan isWord _ _).1, (hscan _ before rest).2.2]
    split <;> simp_all
  rw [hfst]
  -- The character after the spaces is taken as part of the word, whatever it is.
  cases hd : rest.dropWhile (· = 32) with
  | nil =>
    refine iff_of_false (fun h => ?_) (specials_ne_nil pre)
    obtain ⟨type, htype⟩ := Option.isSome_iff_exists.mp h
    exact absurd (isWord_of_special hpre htype) (by decide)
  | cons d rest =>
    rw [List.headD_cons, List.tail_cons, List.takeWhile_cons]
    cases hword : isWord d with
    | true =>
      rw [if_pos rfl, ← keyWord_special hpre (List.forall_mem_cons.mpr ⟨hword, fun y => List.mem_takeWhile_imp⟩)]
      simp
    | false =>
      refine iff_of_false (fun h => ?_) (by simpa using specials_ne_nil pre)
      obtain ⟨type, htype⟩ := Option.isSome_iff_exists.mp h
      exact absurd (isWord_of_special hpre htype) (by simp [hword])

/-- No token was read, or the lexer is not stuck after it. -/
def GoesOn (r : Bool × Token × Lex) : Prop := r.1 = true → ¬ Stuck r.2.2

theorem stuck_special {pre key spaces : List UInt8} {k : UInt8} (h : (pre, k :: key) ∈ specials)
    (hspaces : ∀ y ∈ spaces, decide (y = 32) = true) (hk : k ≠ 32) :
    ¬ GoesOn (isSpecialKeyWord pre tk ⟨before, spaces ++ k :: key⟩) := by
  obtain ⟨-, hkey, hw, -⟩ := specials_cases _ h
  have hword := List.forall_mem_cons.mp (List.all_eq_true.mp hw)
  unfold isSpecialKeyWord
  rw [scan_append hspaces (decide_eq_false hk)]
  dsimp only
  rw [scan_all hword.2, show pre ++ [32, k] ++ key = pre ++ 32 :: k :: key by simp, hkey]
  exact fun h => h rfl (stuck_back hword.1 hword.2)

/-! ## What the lexer reads -/

theorem exists_cons_of_special {pre : List UInt8} (h : pre ∈ keyWordsPrefix) :
    ∃ x w, pre = x :: w ∧ isLetter x = true ∧ ∀ y ∈ w, isWord y = true := by
  have hall : ∀ pre ∈ keyWordsPrefix, isLetter (pre.headD 0) = true ∧ pre.tail.all isWord = true := by decide
  obtain ⟨hx, hw⟩ := hall pre h
  cases pre with
  | nil => exact absurd (show isLetter 0 = true from hx) (by decide)
  | cons x w => exact ⟨x, w, rfl, hx, List.all_eq_true.mp hw⟩

theorem Spells.nextToken_eq {tk' : Token} (h : Spells tk p rest tk') (hb : ∀ y ∈ blanks, isBlank y = true)
    (before : List UInt8) : nextToken tk ⟨before, blanks ++ (p ++ rest)⟩ =
      (true, tk', ⟨p.reverse ++ (blanks.reverse ++ before), rest⟩) := by
  cases h with
  | @symbol x _ _ h =>
    have hx : isBlank x = false := by
      by_contra hblank
      simp only [isBlank, Bool.not_eq_false, decide_eq_true_eq] at hblank
      rcases hblank with rfl | rfl <;> cases h
    rw [List.singleton_append, nextToken_blanks hb hx, readToken, h]
    rfl
  | less hc | greater hc =>
    rw [List.singleton_append, nextToken_blanks hb (by decide)]
    simp [readToken, symbols, List.lookup_cons, readSign, hc]
  | lessEq | greaterEq => exact nextToken_blanks hb (by decide)
  | @string x q w text _ hx h hq =>
    have hblank : isBlank x = false := by rcases hx with rfl | rfl <;> decide
    rw [List.cons_append, List.append_assoc, List.singleton_append, nextToken_blanks hb hblank, readToken_quote hx]
    dsimp only
    rw [readString_quoted h, readString_quote tk _ _ rest hq]
    simp
  | @word x c w rest hx hw hc hspecial =>
    rw [List.cons_append, nextToken_blanks hb (isBlank_eq_false (Or.inl (isWord_of_isLetter hx))), readToken_letter hx,
      readId_word hw hc hspecial, List.reverse_cons, List.append_assoc, List.singleton_append]
  | @primaryKey c pre key spaces rest h hspaces hc =>
    obtain ⟨hpre, hkey, hw, -⟩ := specials_cases _ h
    obtain ⟨x, w, rfl, hx, hpre'⟩ := exists_cons_of_special hpre
    obtain _ | ⟨k, key⟩ := key
    · exact absurd h (specials_ne_nil _)
    · have hword := List.forall_mem_cons.mp (List.all_eq_true.mp hw)
      have hk32 : k ≠ 32 := by rintro rfl; exact absurd hword.1 (by decide)
      have hsplit : x :: w ++ 32 :: (spaces ++ k :: key) ++ c :: rest =
          x :: (w ++ 32 :: (spaces ++ k :: (key ++ c :: rest))) := by simp
      rw [hsplit, nextToken_blanks hb (isBlank_eq_false (Or.inl (isWord_of_isLetter hx))), readToken_letter hx,
        readId_first hpre' hpre, isSpecialKeyWord_word hspaces hk32 hword.2 hc,
        show x :: w ++ [32, k] ++ key = x :: w ++ 32 :: k :: key by simp, hkey]
      simp
  | @integer x c w rest hw hc hdot =>
    obtain ⟨hx, hw⟩ := List.forall_mem_cons.mp hw
    rw [List.cons_append, nextToken_digit hb hx, readNumber_digits hw hc hdot, List.reverse_cons,
      List.append_assoc, List.singleton_append]
  | @decimal x y c w fraction rest hw hfraction hc =>
    obtain ⟨hx, hw⟩ := List.forall_mem_cons.mp hw
    rw [List.append_assoc, List.cons_append, List.cons_append, nextToken_digit hb hx, readNumber_dot hw,
      List.cons_append, List.headD_cons, if_pos (hfraction y List.mem_cons_self)]
    refine (readDecimal_digits hfraction hc).trans ?_
    simp

/-- A token does not depend on how the text after it goes on. -/
theorem Spells.append {tk' : Token} (h : Spells tk p rest tk') (v : List UInt8) : Spells tk p (rest ++ v) tk' := by
  cases h with
  | less hc => exact .less hc
  | greater hc => exact .greater hc
  | _ => constructor <;> assumption

theorem Unreadable.nextToken_eq {text : List UInt8} (h : Unreadable text) (hb : ∀ y ∈ blanks, isBlank y = true)
    (tk : Token) (before : List UInt8) : (nextToken tk ⟨before, blanks ++ text⟩).1 = false := by
  cases h with
  | @char x rest hblank hsymbol hx =>
    simp only [isWord, Bool.or_eq_true, not_or] at hx
    obtain ⟨⟨hletter, hdigit⟩, h60, h62, h34, h39⟩ := hx
    rw [nextToken_blanks hb hblank, readToken, hsymbol]
    simp [h60, h62, h34, h39, hletter, hdigit]
  | @string x w text rest hx h hrest =>
    have hblank : isBlank x = false := by rcases hx with rfl | rfl <;> decide
    rw [nextToken_blanks hb hblank, readToken_quote hx]
    dsimp only
    rw [readString_quoted h]
    rcases hrest with rfl | rfl | hzero
    · rfl
    · rfl
    · obtain ⟨rest, rfl⟩ := List.head?_eq_some_iff.mp hzero
      rw [readString.eq_def]
      rfl
  | @primary pre rest hpre hkey =>
    obtain ⟨x, w, rfl, hx, hw⟩ := exists_cons_of_special hpre
    rw [List.cons_append, nextToken_blanks hb (isBlank_eq_false (Or.inl (isWord_of_isLetter hx))),
      readToken_letter hx, readId_first hw hpre]
    exact Bool.eq_false_iff.mpr fun h => hkey ((isSpecialKeyWord_iff hpre).mp h)
  | @point x w rest hw hrest =>
    obtain ⟨hx, hw⟩ := List.forall_mem_cons.mp hw
    rw [nextToken_digit hb hx, readNumber_dot hw, hrest]
    rfl

/-- A text begins with a token, or with what no token is read from. -/
def Known (tk : Token) (text : List UInt8) : Prop :=
  Unreadable text ∨ ∃ p rest tk', text = p ++ rest ∧ Spells tk p rest tk'

theorem known_letter (hx : isLetter x = true) (hstuck : GoesOn (readId tk ⟨x :: before, rest⟩)) :
    Known tk (x :: rest) := by
  rcases split_scan isWord rest with ⟨w, c, rest, rfl, hw, hc⟩ | hall
  · by_cases hspecial : c = 32 ∧ x :: w ∈ keyWordsPrefix
    · obtain ⟨rfl, hspecial⟩ := hspecial
      by_cases hkey : (x :: w, (rest.dropWhile (· = 32)).takeWhile isWord) ∈ specials
      · rcases split_scan (· = 32) rest with ⟨spaces, k, rest, rfl, hspaces, hk⟩ | hall
        · rw [List.dropWhile_append_of_pos hspaces, List.dropWhile_cons_of_neg (by simp [hk])] at hkey
          rcases split_scan isWord (k :: rest) with ⟨key, c, rest', heq, hword, hc⟩ | hall
          · rw [heq, List.takeWhile_append_of_pos hword, List.takeWhile_cons_of_neg (by simp [hc]),
              List.append_nil] at hkey
            refine Or.inr ⟨_, c :: rest', _, ?_, .primaryKey hkey hspaces hc⟩
            rw [heq]
            simp
          · rw [List.takeWhile_eq_self_iff.mpr hall] at hkey
            rw [readId_first hw hspecial] at hstuck
            exact absurd hstuck (stuck_special hkey hspaces (by simpa using hk))
        · rw [List.dropWhile_eq_nil_iff.mpr hall] at hkey
          exact absurd hkey (specials_ne_nil _)
      · exact Or.inl (show Unreadable (x :: w ++ 32 :: rest) from .primary hspecial hkey)
    · exact Or.inr ⟨x :: w, c :: rest, _, rfl, .word hx hw hc hspecial⟩
  · obtain ⟨tk', hread⟩ := readId_end tk (x :: before) hall
    rw [hread] at hstuck
    exact absurd (stuck_back (isWord_of_isLetter hx) hall) (hstuck rfl)

theorem known_digit (hx : isDigit x = true) (hstuck : GoesOn (readNumber tk ⟨x :: before, rest⟩)) :
    Known tk (x :: rest) := by
  have hdigits : ∀ {x : UInt8} {w : List UInt8}, (∀ y ∈ x :: w, isDigit y = true) →
      isWord x = true ∧ ∀ y ∈ w, isWord y = true := fun h =>
    ⟨isWord_of_isDigit (h _ List.mem_cons_self), fun y hy => isWord_of_isDigit (h y (List.mem_cons_of_mem _ hy))⟩
  rcases split_scan isDigit rest with ⟨w, c, rest, rfl, hw, hc⟩ | hall
  · have hall : ∀ y ∈ x :: w, isDigit y = true := List.forall_mem_cons.mpr ⟨hx, hw⟩
    by_cases hdot : c = 46
    · subst hdot
      by_cases hrest : isDigit (rest.headD 0) = true
      · rw [readNumber_dot hw, if_pos hrest] at hstuck
        obtain _ | ⟨y, rest⟩ := rest
        · exact absurd hrest (by decide)
        · rcases split_scan isDigit rest with ⟨f, c, rest, rfl, hf, hc⟩ | hf
          · exact Or.inr ⟨_, c :: rest, _, by simp, .decimal hall (List.forall_mem_cons.mpr ⟨hrest, hf⟩) hc⟩
          · have hfall : ∀ z ∈ y :: rest, isDigit z = true := List.forall_mem_cons.mpr ⟨hrest, hf⟩
            rw [readDecimal_end hfall] at hstuck
            refine absurd ?_ (hstuck rfl)
            dsimp only
            rw [List.reverse_cons, List.append_assoc, List.singleton_append]
            exact stuck_back (hdigits hfall).1 (hdigits hfall).2
      · exact Or.inl (.point hall (by simpa using hrest))
    · exact Or.inr ⟨x :: w, c :: rest, _, rfl, .integer hall hc hdot⟩
  · obtain ⟨tk', hread⟩ := readNumber_end tk (x :: before) hall
    rw [hread] at hstuck
    have hw := hdigits (List.forall_mem_cons.mpr ⟨hx, hall⟩)
    exact absurd (stuck_back hw.1 hw.2) (hstuck rfl)

theorem known_of_not_stuck (hx : isBlank x = false) (hstuck : GoesOn (readToken tk x ⟨x :: before, rest⟩)) :
    Known tk (x :: rest) := by
  have hsign : ∀ {eqType type : TokenType}, x = 60 ∨ x = 62 →
      GoesOn (readSign eqType type tk ⟨x :: before, rest⟩) → rest ≠ [] := by
    rintro eqType type hsign hstuck rfl
    exact hstuck rfl ⟨x, rfl, Or.inr hsign⟩
  cases hsymbol : symbols.lookup x with
  | some type => exact Or.inr ⟨[x], rest, _, rfl, .symbol hsymbol⟩
  | none =>
    rw [readToken, hsymbol] at hstuck
    split_ifs at hstuck with h60 h62 hquote hletter hdigit
    · obtain ⟨c, rest, rfl⟩ := List.exists_cons_of_ne_nil (hsign (Or.inl h60) hstuck)
      subst h60
      by_cases hc : c = 61
      · exact Or.inr ⟨[60, 61], rest, _, by rw [hc]; rfl, .lessEq⟩
      · exact Or.inr ⟨[60], c :: rest, _, rfl, .less hc⟩
    · obtain ⟨c, rest, rfl⟩ := List.exists_cons_of_ne_nil (hsign (Or.inr h62) hstuck)
      subst h62
      by_cases hc : c = 61
      · exact Or.inr ⟨[62, 61], rest, _, by rw [hc]; rfl, .greaterEq⟩
      · exact Or.inr ⟨[62], c :: rest, _, rfl, .greater hc⟩
    · obtain ⟨w, text, rest, rfl, hw, hrest | ⟨q, rest, rfl, hq⟩⟩ := split_quotes rest
      · exact Or.inl (.string hquote hw hrest)
      · exact Or.inr ⟨_, rest, _, by simp, .string hquote hw hq⟩
    · exact known_letter hletter hstuck
    · exact known_digit hdigit hstuck
    · refine Or.inl (.char hx hsymbol ?_)
      simp_all [isWord]

/-- What the lexer finds at the beginning of a text, if it is not stuck after the call. -/
theorem nextToken_cases {s : Token × Lex} (hgo : GoesOn (nextToken s.1 s.2)) :
    ((nextToken s.1 s.2).1 = false ∧ ((∀ y ∈ s.2.after, isBlank y = true) ∨
      ∃ blanks text, s.2.after = blanks ++ text ∧ (∀ y ∈ blanks, isBlank y = true) ∧ Unreadable text)) ∨
    ∃ blanks p rest tk', s.2.after = blanks ++ (p ++ rest) ∧ (∀ y ∈ blanks, isBlank y = true) ∧
      Spells s.1 p rest tk' := by
  obtain ⟨tk, before, after⟩ := s
  rcases split_scan isBlank after with ⟨blanks, x, rest, rfl, hb, hx⟩ | hall
  · have hread : nextToken tk ⟨before, blanks ++ x :: rest⟩ = _ := nextToken_blanks hb hx
    rcases known_of_not_stuck hx (hread ▸ hgo) with hno | ⟨p, rest', tk', heq, hp⟩
    · exact Or.inl ⟨hno.nextToken_eq hb tk before, Or.inr ⟨blanks, _, rfl, hb, hno⟩⟩
    · exact Or.inr ⟨blanks, p, rest', tk', congrArg (blanks ++ ·) heq, hb, hp⟩
  · refine Or.inl ⟨?_, Or.inl hall⟩
    rw [Lex.nextToken_eq, scan_all hall, readToken_zero]

/-- A token after which the lexer is not stuck, as it stands in the text. -/
theorem exists_spells {s s' : Token × Lex} {tk : Token} (h : Reads nextToken s tk s') (hstuck : ¬ Stuck s'.2) :
    ∃ blanks p, (∀ y ∈ blanks, isBlank y = true) ∧
      Spells s.1 p s'.2.after tk ∧ s.2.after = blanks ++ (p ++ s'.2.after) ∧
      s'.2.before = p.reverse ++ (blanks.reverse ++ s.2.before) := by
  obtain ⟨hnext, rfl⟩ := h
  have hgo : GoesOn (nextToken s.1 s.2) := fun _ => by rwa [hnext]
  rcases nextToken_cases hgo with ⟨hfalse, -⟩ | ⟨blanks, p, rest, tk₁, heq, hb, hp⟩
  · rw [hnext] at hfalse
    cases hfalse
  · have hread := hp.nextToken_eq hb s.2.before
    rw [← heq] at hread
    obtain rfl : s' = (tk₁, _) := (Prod.mk.inj (hnext.symm.trans hread)).2
    exact ⟨blanks, p, hb, hp, heq, rfl⟩

end Read

end Lex

end Dawn
