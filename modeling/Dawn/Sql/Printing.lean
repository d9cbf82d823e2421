import Dawn.Sql.Spelling

/-!
# Lexing what was printed

Tokens as they are written, one after the other with a space between them and a newline at the end. The lexer
gives back the tokens that were printed, as long as the text has fewer than `2^31` bytes: of a longer one it sees
only a part (`lex_print_iff`).

A token is read as it is spelled, with a blank after it (`Lexeme.exists_spells`). For a text that is cut off, a token
that is read before the cut is read from the whole text too (`trace_append`), so that the lexer cannot have come
further than the cut.
-/

namespace Dawn

variable {spelling : List UInt8}

namespace Lex

open SqlExecute

/-- The signs of the language, as they are written. -/
def signs : List (List UInt8 × TokenType) :=
  [([40], .LEFT_PARENTHESES), ([41], .RIGHT_PARENTHESES), ([59], .SEMICOLON), ([44], .COMMA), ([60], .LESS_SIGN),
    ([60, 61], .LE_EQ), ([62], .GREATER_SIGN), ([62, 61], .GT_EQ), ([42], .STAR), ([61], .EQUAL)]

/-- Names: a letter, then letters and digits. Keywords and the first word of one are none. -/
structure IsName (name : List UInt8) : Prop where
  first : ∃ c w, name = c :: w ∧ isLetter c = true
  word : ∀ c ∈ name, isWord c = true
  keyWord : name ∉ keyWords.map Prod.fst
  special : name ∉ keyWordsPrefix

/-- A nonempty list of digits. -/
structure IsDigits (digits : List UInt8) : Prop where
  ne_nil : digits ≠ []
  digit : ∀ c ∈ digits, isDigit c = true

/-- A token, as it is written. -/
inductive Lexeme
  | keyWord (spelling : List UInt8) (type : TokenType) (h : (spelling, type) ∈ keyWords)
  | sign (spelling : List UInt8) (type : TokenType) (h : (spelling, type) ∈ signs)
  | ident (name : List UInt8) (h : IsName name)
  /-- An integer from 0 to `2^31 - 1`. -/
  | integer (digits : List UInt8) (h : IsDigits digits) (hval : digitsValue digits < 2^31)
  | decimal (whole fraction : List UInt8) (hwhole : IsDigits whole) (hfraction : IsDigits fraction)
  | string (quote : UInt8) (text : List UInt8) (hquote : quote = 34 ∨ quote = 39) (h0 : 0 ∉ text)

/-- A string between quotes: a backslash stands before quotes and backslashes. -/
def escape (text : List UInt8) : List UInt8 :=
  text.flatMap fun c => if c = 92 ∨ c = 34 ∨ c = 39 then [92, c] else [c]

theorem escape_cons (c : UInt8) (text : List UInt8) :
    escape (c :: text) = (if c = 92 ∨ c = 34 ∨ c = 39 then [92, c] else [c]) ++ escape text := rfl

namespace Lexeme

/-- The text of a token. -/
def text : Lexeme → List UInt8
  | keyWord spelling _ _ => spelling
  | sign spelling _ _ => spelling
  | ident name _ => name
  | integer digits _ _ => digits
  | decimal whole fraction _ _ => whole ++ 46 :: fraction
  | string quote text _ _ => quote :: (escape text ++ [quote])

/-- What the lexer is to give for the token: its type, and the value if it has one. -/
def Matches : Lexeme → Token → Prop
  | keyWord _ type _, tk => tk.type = type
  | sign _ type _, tk => tk.type = type
  | ident name _, tk => tk = ⟨.ID, .varchar name⟩
  | integer digits _ _, tk => tk = ⟨.INT_NUM, .integer (digitsValue digits)⟩
  | decimal whole fraction _ _, tk => tk = ⟨.DECIMAL_NUM, .decimal (whole ++ 46 :: fraction)⟩
  | string _ text _ _, tk => tk = ⟨.STRING, .varchar text⟩

def isInteger : Lexeme → Bool
  | integer _ _ _ => true
  | _ => false

/-- The token is the keyword `DECIMAL`. -/
def isDecimal : Lexeme → Bool
  | keyWord _ type _ => type = .DECIMAL
  | _ => false

end Lexeme

/-- The text of a list of tokens. -/
def print : List Lexeme → List UInt8
  | [] => [10]
  | [l] => l.text ++ [10]
  | l :: m :: ls => l.text ++ 32 :: print (m :: ls)

/-- No integer directly follows the keyword `DECIMAL`. -/
def Printable (ls : List Lexeme) : Prop := ls.IsChain fun l m => ¬ (l.isDecimal ∧ m.isInteger)

/-! ## Numbers -/

theorem integerOfDigits_eq_iff (digits : List UInt8) :
    integerOfDigits digits = digitsValue digits ↔ digitsValue digits < 2^31 := by
  unfold integerOfDigits
  split
  · next h => exact iff_of_true rfl h
  · next h => exact iff_of_false (by omega) h

/-- A digit string with a separator after it is rejected or gives the number that it denotes exactly if the number
is below `2^31`, or a point stands there with no digit after it. -/
theorem readNumber_exact_iff (tk : Token) (before rest : List UInt8) {x c : UInt8} {w : List UInt8}
    (hdigits : IsDigits (x :: w)) (hc : isDigit c = false) (hsep : c = 46 → isDigit (rest.headD 0) = false) :
    ((readNumber tk ⟨x :: before, w ++ c :: rest⟩).1 = false ∨
      (readNumber tk ⟨x :: before, w ++ c :: rest⟩).2.1.val = .integer (digitsValue (x :: w))) ↔
    digitsValue (x :: w) < 2^31 ∨ c = 46 := by
  have hw : ∀ y ∈ w, isDigit y = true := fun y hy => hdigits.digit y (List.mem_cons_of_mem x hy)
  by_cases hdot : c = 46
  · subst hdot
    rw [readNumber_dot hw, hsep rfl]
    simp
  · rw [readNumber_digits hw hc hdot]
    simp only [Bool.true_eq_false, false_or, TokenVal.integer.injEq, hdot, or_false]
    exact integerOfDigits_eq_iff (x :: w)

/-- `1;`. -/
theorem readNumber_exact_iff_one : IsDigits [49] ∧ isDigit 59 = false ∧
    (((readNumber ⟨.COMMA, .integer 0⟩ ⟨[49], [59]⟩).1 = false ∨
      (readNumber ⟨.COMMA, .integer 0⟩ ⟨[49], [59]⟩).2.1.val = .integer (digitsValue [49])) ↔
    digitsValue [49] < 2^31 ∨ (59 : UInt8) = 46) :=
  have hdigits : IsDigits [49] := ⟨by simp, List.all_eq_true.mp rfl⟩
  ⟨hdigits, by decide,
    readNumber_exact_iff ⟨.COMMA, .integer 0⟩ [] [] (x := 49) (c := 59) (w := []) hdigits (by decide) (by decide)⟩

/-- `2147483648)`, as in `CHAR(2147483648)`, is read as `-2147483648`. -/
theorem readNumber_two_pow_31 :
    digitsValue [50, 49, 52, 55, 52, 56, 51, 54, 52, 56] = 2147483648 ∧
    readNumber ⟨.LEFT_PARENTHESES, .integer 0⟩ ⟨[50], [49, 52, 55, 52, 56, 51, 54, 52, 56, 41]⟩ =
      (true, ⟨.INT_NUM, .integer (-2147483648)⟩,
        ⟨[56, 52, 54, 51, 56, 52, 55, 52, 49, 50], [41]⟩) := by
  decide

/-! ## Reading what was printed -/

theorem blank_ends {c : UInt8} (hc : c = 32 ∨ c = 10) :
    isWord c = false ∧ isDigit c = false ∧ c ≠ 46 ∧ c ≠ 61 := by
  rcases hc with rfl | rfl <;> decide

theorem quoted_escape {text : List UInt8} (h0 : 0 ∉ text) : Quoted (escape text) text := by
  induction text with
  | nil => exact .nil
  | cons d text ih =>
    rw [List.mem_cons, not_or] at h0
    by_cases hd : d = 92 ∨ d = 34 ∨ d = 39
    · rw [escape_cons, if_pos hd]
      exact .escaped d (ih h0.2)
    · rw [not_or] at hd
      rw [escape_cons, if_neg (not_or.mpr hd)]
      exact .char (fun h => h0.1 h.symm) hd.2 hd.1 (ih h0.2)

theorem keyWords_cases : ∀ p ∈ keyWords,
    (isLetter (p.1.headD 0) ∧ p.1.all isWord = true ∧ p.1 ∉ keyWordsPrefix ∧ keyWord p.1 = some p.2) ∨
    p = (ascii "primary key", .PRIMARY_KEY) ∨ p = (ascii "PRIMARY KEY", .PRIMARY_KEY) := by decide +kernel

theorem keyWord_of_isName {name : List UInt8} (h : IsName name) : keyWord name = none := by
  rw [keyWord, cStr_word h.word, List.lookup_eq_none_iff]
  intro p hp
  rw [bne_iff_ne]
  rintro rfl
  exact h.keyWord (List.mem_map_of_mem hp)

theorem spells_keyWord {tk : Token} {type : TokenType} {rest : List UInt8} {c : UInt8}
    (h : (spelling, type) ∈ keyWords) (hc : isWord c = false) :
    Spells tk spelling (c :: rest) { tk with type } := by
  rcases keyWords_cases _ h with ⟨hx, hw, hspecial, hkey⟩ | hprimary | hprimary
  · obtain _ | ⟨x, w⟩ := spelling
    · exact absurd (show isLetter 0 = true from hx) (by decide)
    · dsimp only [List.headD_cons] at hx hw hspecial hkey
      have hword : Spells tk (x :: w) (c :: rest) (wordToken tk (x :: w)) :=
        .word hx (fun y hy => List.all_eq_true.mp hw y (List.mem_cons_of_mem x hy)) hc fun h => hspecial h.2
      rwa [wordToken, hkey] at hword
  · obtain ⟨rfl, rfl⟩ := Prod.mk.inj hprimary
    exact show Spells tk (ascii "primary" ++ 32 :: ([] ++ ascii "key")) (c :: rest) _ from
      .primaryKey (by decide) (List.forall_mem_nil _) hc
  · obtain ⟨rfl, rfl⟩ := Prod.mk.inj hprimary
    exact show Spells tk (ascii "PRIMARY" ++ 32 :: ([] ++ ascii "KEY")) (c :: rest) _ from
      .primaryKey (by decide) (List.forall_mem_nil _) hc

theorem spells_sign {tk : Token} {type : TokenType} {rest : List UInt8} {c : UInt8}
    (h : (spelling, type) ∈ signs) (hc : c ≠ 61) : Spells tk spelling (c :: rest) { tk with type } := by
  simp only [signs, List.mem_cons, Prod.mk.injEq, List.not_mem_nil, or_false] at h
  rcases h with ⟨rfl, rfl⟩ | ⟨rfl, rfl⟩ | ⟨rfl, rfl⟩ | ⟨rfl, rfl⟩ | ⟨rfl, rfl⟩ | ⟨rfl, rfl⟩ | ⟨rfl, rfl⟩ |
    ⟨rfl, rfl⟩ | ⟨rfl, rfl⟩ | ⟨rfl, rfl⟩
  · exact .symbol rfl
  · exact .symbol rfl
  · exact .symbol rfl
  · exact .symbol rfl
  · exact .less hc
  · exact .lessEq
  · exact .greater hc
  · exact .greaterEq
  · exact .symbol rfl
  · exact .symbol rfl

theorem Lexeme.exists_spells (l : Lexeme) {tk : Token} (hint : l.isInteger = true → tk.type ≠ .DECIMAL) {c : UInt8}
    (hc : c = 32 ∨ c = 10) (rest : List UInt8) : ∃ tk', Spells tk l.text (c :: rest) tk' ∧ l.Matches tk' := by
  obtain ⟨hword, hdigit, hdot, heq⟩ := blank_ends hc
  cases l with
  | keyWord spelling type h => exact ⟨_, spells_keyWord h hword, rfl⟩
  | sign spelling type h => exact ⟨_, spells_sign h heq, rfl⟩
  | ident name h =>
    obtain ⟨x, w, rfl, hx⟩ := h.first
    refine ⟨_, .word hx (fun y hy => h.word y (List.mem_cons_of_mem x hy)) hword fun hs => h.special hs.2, ?_⟩
    rw [wordToken, keyWord_of_isName h]
    rfl
  | integer digits h hval =>
    obtain ⟨x, w, rfl⟩ := List.exists_cons_of_ne_nil h.ne_nil
    refine ⟨_, .integer h.digit hdigit hdot, ?_⟩
    rw [if_neg (hint rfl), integerOfDigits, if_pos hval]
    rfl
  | decimal whole fraction hwhole hfraction =>
    obtain ⟨x, w, rfl⟩ := List.exists_cons_of_ne_nil hwhole.ne_nil
    obtain ⟨y, frac, rfl⟩ := List.exists_cons_of_ne_nil hfraction.ne_nil
    exact ⟨_, .decimal hwhole.digit hfraction.digit hdigit, rfl⟩
  | string quote text hquote h0 => exact ⟨_, .string hquote (quoted_escape h0) hquote, rfl⟩

theorem Lexeme.type_ne_decimal {l : Lexeme} {tk : Token} (h : l.Matches tk) (hl : l.isDecimal = false) :
    tk.type ≠ .DECIMAL := by
  cases l with
  | keyWord spelling type hmem =>
    rw [show tk.type = type from h]
    simpa [isDecimal] using hl
  | sign spelling type hmem =>
    have hall : ∀ p ∈ signs, p.2 ≠ .DECIMAL := by decide
    rw [show tk.type = type from h]
    exact hall _ hmem
  | _ =>
    rw [show tk = _ from h]
    simp

theorem print_cons (l : Lexeme) (ls : List Lexeme) :
    ∃ c rest, print (l :: ls) = l.text ++ c :: rest ∧ (c = 32 ∨ c = 10) ∧
      (ls = [] ∧ c :: rest = [10] ∨ ls ≠ [] ∧ c :: rest = 32 :: print ls) := by
  cases ls with
  | nil => exact ⟨10, [], rfl, Or.inr rfl, Or.inl ⟨rfl, rfl⟩⟩
  | cons m ls => exact ⟨32, print (m :: ls), rfl, Or.inl rfl, Or.inr ⟨by simp, rfl⟩⟩

theorem reads_print {ls : List Lexeme} (hls : Printable ls) {tk : Token}
    (htk : ∀ l ∈ ls.head?, l.isInteger = true → tk.type ≠ .DECIMAL) {blanks : List UInt8}
    (hb : ∀ y ∈ blanks, isBlank y = true) (before : List UInt8) :
    ∃ ts tk' lex', Trace (Reads nextToken) (tk, ⟨before, blanks ++ print ls⟩) ts (tk', lex') ∧
      List.Forall₂ Lexeme.Matches ls ts ∧ lex'.after = (if ls = [] then blanks else []) ++ [10] := by
  induction ls generalizing tk blanks before with
  | nil => exact ⟨[], tk, _, Trace.nil _, .nil, rfl⟩
  | cons l ls ih =>
    obtain ⟨c, rest, hprint, hc, hrest⟩ := print_cons l ls
    obtain ⟨tk1, hspells, hmatch⟩ := l.exists_spells (htk l rfl) hc rest
    have hnext := hspells.nextToken_eq hb before
    rw [← hprint] at hnext
    have hread : Reads nextToken (tk, ⟨before, blanks ++ print (l :: ls)⟩) tk1 (tk1, _) := ⟨hnext, rfl⟩
    rcases hrest with ⟨rfl, hlast⟩ | ⟨hne, hmore⟩
    · rw [hlast] at hread
      exact ⟨[tk1], tk1, _, Trace.single hread, .cons hmatch .nil, rfl⟩
    · rw [hmore] at hread
      -- The token before the next one is the one just read.
      have htk1 : ∀ m ∈ ls.head?, m.isInteger = true → tk1.type ≠ .DECIMAL := by
        intro m hm hint
        refine Lexeme.type_ne_decimal hmatch ?_
        obtain ⟨ls', rfl⟩ := List.head?_eq_some_iff.mp hm
        have hchain := (List.isChain_cons_cons.mp hls).1
        simpa [hint] using hchain
      have hb1 : ∀ y ∈ [(32 : UInt8)], isBlank y = true := List.all_eq_true.mp rfl
      obtain ⟨ts, tk', lex', ht, hall, hleft⟩ := ih hls.tail htk1 hb1 _
      rw [if_neg hne] at hleft
      exact ⟨tk1 :: ts, tk', lex', Trace.cons hread ht, .cons hmatch hall, hleft⟩

theorem stops_print {ls : List Lexeme} (hls : Printable ls) {tk : Token} (htk : tk.type ≠ .DECIMAL)
    (hlen : (print ls).length < 2^31) :
    ∃ ts tk' lex', Stops nextToken tk (ofText (print ls)) ts tk' lex' ∧ List.Forall₂ Lexeme.Matches ls ts := by
  have hb : ∀ y ∈ ([] : List UInt8), isBlank y = true := List.forall_mem_nil _
  obtain ⟨ts, tk', lex', ht, hall, hleft⟩ := reads_print hls (fun _ _ _ => htk) hb []
  rw [List.nil_append, ← ofText_eq hlen] at ht
  refine ⟨ts, tk', lex', ⟨ht, ?_⟩, hall⟩
  rw [ite_self, List.nil_append] at hleft
  rw [Lex.nextToken_eq, hleft, scan_all (List.all_eq_true.mp rfl), readToken_zero]

/-! ## Texts that are cut off -/

theorem trace_append {s s' : Token × Lex} {ts : List Token} (h : Trace (Reads nextToken) s ts s')
    (hstop : (nextToken s'.1 s'.2).1 = false) (v : List UInt8) :
    Trace (Reads nextToken) (s.1, ⟨s.2.before, s.2.after ++ v⟩) ts (s'.1, ⟨s'.2.before, s'.2.after ++ v⟩) := by
  induction h with
  | nil s => exact Trace.nil _
  | @cons s s1 s' tk ts hread ht ih =>
    -- The lexer is not stuck after the token, since it stops later.
    obtain ⟨blanks, p, hb, hp, hafter, hbefore⟩ := exists_spells hread
      fun hstuck => hstuck.not_stops s1.1 ⟨ts, s'.1, s'.2, ht, hstop⟩
    have hnext := (hp.append v).nextToken_eq hb s.2.before
    rw [← hbefore, ← List.append_assoc p, ← List.append_assoc blanks, ← hafter, hread.2] at hnext
    exact Trace.cons ⟨hnext, hread.2⟩ (ih hstop)

theorem trace_unique {s s1 s2 : Token × Lex} {ts1 ts2 : List Token} (h1 : Trace (Reads nextToken) s ts1 s1)
    (h2 : Trace (Reads nextToken) s ts2 s2) (hlen : ts1.length = ts2.length) : s1 = s2 := by
  induction h1 generalizing ts2 with
  | nil s =>
    cases h2 with
    | nil => rfl
    | cons => simp at hlen
  | cons hread _ ih =>
    cases h2 with
    | nil => simp at hlen
    | cons hread2 h2 =>
      obtain rfl := (Prod.mk.inj (hread.1.symm.trans hread2.1)).2
      exact ih h2 (by simpa using hlen)

theorem length_ofText {sql : List UInt8} (h : 2^31 ≤ sql.length) : (wrap32 sql.length).toNat + 2 ≤ sql.length := by
  rw [wrap32_eq_bmod, Int.bmod_def]
  split_ifs <;> omega

theorem not_stops_print {ls : List Lexeme} (hls : Printable ls) {tk : Token} (htk : tk.type ≠ .DECIMAL)
    (hlen : 2^31 ≤ (print ls).length) :
    ¬∃ ts tk' lex', Stops nextToken tk (ofText (print ls)) ts tk' lex' ∧ List.Forall₂ Lexeme.Matches ls ts := by
  rintro ⟨ts, tk', lex', ⟨ht, hstop⟩, hall⟩
  -- The same tokens are read from the whole text, and are all of its tokens.
  have hwhole := trace_append ht hstop ((print ls).drop (wrap32 (print ls).length).toNat)
  dsimp only [ofText] at hwhole
  rw [List.take_append_drop] at hwhole
  have hb : ∀ y ∈ ([] : List UInt8), isBlank y = true := List.forall_mem_nil _
  obtain ⟨ts2, tk2, lex2, ht2, hall2, hleft⟩ := reads_print hls (fun _ _ _ => htk) hb []
  have heq := trace_unique hwhole ht2 (hall.length_eq.symm.trans hall2.length_eq)
  -- Only the newline is left then, but more was cut off.
  have hafter := congrArg (fun s => s.2.after.length) heq
  have hcut := length_ofText hlen
  rw [ite_self, List.nil_append] at hleft
  simp only [hleft, List.length_append, List.length_drop, List.length_singleton] at hafter
  omega

/-- The lexer gives back the tokens that were printed exactly when the text has fewer than `2^31` bytes. -/
theorem lex_print_iff {ls : List Lexeme} (hls : Printable ls) {tk : Token} (htk : tk.type ≠ .DECIMAL) :
    (∃ ts tk' lex', Stops nextToken tk (ofText (print ls)) ts tk' lex' ∧ List.Forall₂ Lexeme.Matches ls ts) ↔
      (print ls).length < 2^31 := by
  refine ⟨fun h => ?_, stops_print hls htk⟩
  by_contra hlen
  exact not_stops_print hls htk (not_lt.mp hlen) h

/-- The text `decimal d <= 7 , 'it\'s'`. -/
def someLexemes : List Lexeme :=
  [.keyWord (ascii "decimal") .DECIMAL (by decide),
    .ident (ascii "d") ⟨⟨100, [], rfl, by decide⟩, List.all_eq_true.mp rfl, by decide, by decide⟩,
    .sign [60, 61] .LE_EQ (by decide), .integer [55] ⟨by decide, List.all_eq_true.mp rfl⟩ (by decide),
    .sign [44] .COMMA (by decide), .string 39 (ascii "it's") (by decide) (by decide)]

theorem lex_print_iff_someLexemes :
    ∃ ts tk' lex', Stops nextToken ⟨.SEMICOLON, .integer 0⟩ (ofText (print someLexemes)) ts tk' lex' ∧
      List.Forall₂ Lexeme.Matches someLexemes ts :=
  (lex_print_iff (by simp [Printable, someLexemes, Lexeme.isDecimal, Lexeme.isInteger]) (by decide)).mpr
    (by decide)

/-- A string of `n` letters. -/
def letters (n : ℕ) : Lexeme :=
  .string 34 (List.replicate n 97) (Or.inl rfl) fun h => absurd (List.eq_of_mem_replicate h) (by decide)

theorem length_le_escape (text : List UInt8) : text.length ≤ (escape text).length := by
  induction text with
  | nil => exact le_rfl
  | cons c text ih =>
    rw [escape_cons, List.length_append, List.length_cons]
    split_ifs <;> simp only [List.length_cons, List.length_nil] <;> omega

theorem length_print_letters (n : ℕ) : n ≤ (print [letters n]).length := by
  have hesc := length_le_escape (List.replicate n 97)
  rw [List.length_replicate] at hesc
  rw [print, letters, Lexeme.text]
  simp only [List.length_append, List.length_cons]
  omega

/-- A string of `2^31` letters is not given back. -/
theorem long_string_is_lost :
    ¬∃ ts tk' lex', Stops nextToken ⟨.SEMICOLON, .integer 0⟩ (ofText (print [letters (2^31)])) ts tk' lex' ∧
      List.Forall₂ Lexeme.Matches [letters (2^31)] ts :=
  not_stops_print (List.isChain_singleton _) (by decide) (length_print_letters (2^31))

end Lex

end Dawn
