import Dawn.Sql.Spelling

/-!
# Whole texts

A token moves the position of the lexer, unless the lexer is stuck. A text is read to an end in at most one call for
each character and one more, exactly when the lexer never gets stuck (`terminates_iff`).

It returns false both at the end of a text and at what it cannot read, and the tokens before are parsed and executed
as if they were the whole text (`text_covered_iff`). Which texts this happens to is said by the text alone: `Splits`
divides it into its tokens and what the lexer leaves (`stops_iff_splits`).
-/

namespace Dawn

namespace Lex

open SqlExecute

/-! ## The end of a text -/

/-- The calls on a text, with the token that is passed at first: one of them returns false after at most one for
each character, and one that returns true moves the position. -/
structure Terminates (sql : List UInt8) (tk : Token) : Prop where
  stops : ∃ ts tk' lex', Stops nextToken tk (ofText sql) ts tk' lex' ∧ ts.length + 1 ≤ sql.length + 1
  moves : ∀ ts s tk' s', Trace (Reads nextToken) (tk, ofText sql) ts s → Reads nextToken s tk' s' →
    s.2.pos < s'.2.pos

/-- The text on both sides of the position. -/
def text (lex : Lex) : List UInt8 := lex.before.reverse ++ lex.after

theorem Spells.ne_nil {tk tk' : Token} {p rest : List UInt8} (h : Spells tk p rest tk') : p ≠ [] := by
  cases h <;> simp

theorem text_of_reads {s s' : Token × Lex} {tk : Token} (h : Reads nextToken s tk s') (hstuck : ¬ Stuck s'.2) :
    s'.2.text = s.2.text ∧ s.2.before.length < s'.2.before.length := by
  obtain ⟨blanks, p, -, hp, hafter, hbefore⟩ := exists_spells h hstuck
  have hpos := List.length_pos_iff.mpr hp.ne_nil
  refine ⟨by simp [text, hafter, hbefore], ?_⟩
  rw [hbefore, List.length_append, List.length_append, List.length_reverse]
  omega

theorem stops_of_not_stuck {tk : Token} {lex : Lex} (h : ∀ ts s, Trace (Reads nextToken) (tk, lex) ts s → ¬ Stuck s.2) :
    ∃ ts tk' lex', Stops nextToken tk lex ts tk' lex' ∧ ts.length ≤ lex.after.length := by
  -- By induction on what is left, which gets shorter with every token.
  induction hn : lex.after.length using Nat.strong_induction_on generalizing tk lex with
  | _ n ih =>
    rcases hnext : nextToken tk lex with ⟨more, tk₁, lex1⟩
    cases more with
    | false => exact ⟨[], tk, lex, ⟨Trace.nil _, by rw [hnext]⟩, Nat.zero_le _⟩
    | true =>
      have hread : Reads nextToken (tk, lex) tk₁ (tk₁, lex1) := ⟨hnext, rfl⟩
      obtain ⟨htext, hmove⟩ := text_of_reads hread (h [tk₁] (tk₁, lex1) (Trace.single hread))
      dsimp only at htext hmove
      replace htext := congrArg List.length htext
      simp only [text, List.length_append, List.length_reverse] at htext
      obtain ⟨ts, tk', lex', ⟨ht, hf⟩, hlen⟩ := ih lex1.after.length (by omega)
        (fun ts s ht => h (tk₁ :: ts) s (Trace.cons hread ht)) rfl
      exact ⟨tk₁ :: ts, tk', lex', ⟨Trace.cons hread ht, hf⟩, by rw [List.length_cons]; omega⟩

theorem terminates_of_not_stuck {sql : List UInt8} {tk : Token}
    (h : ∀ ts s, Trace (Reads nextToken) (tk, ofText sql) ts s → ¬ Stuck s.2) : Terminates sql tk := by
  refine ⟨?_, fun ts s tk' s' ht hread => ?_⟩
  · obtain ⟨ts, tk', lex', hstop, hlen⟩ := stops_of_not_stuck h
    have hle : (ofText sql).after.length ≤ sql.length := List.length_take_le' ..
    exact ⟨ts, tk', lex', hstop, by omega⟩
  · have hmove := (text_of_reads hread (h (ts ++ [tk']) s' (ht.snoc hread))).2
    unfold pos
    omega

theorem text_of_stops {tk tk' : Token} {lex lex' : Lex} {ts : List Token} (h : Stops nextToken tk lex ts tk' lex') :
    lex'.text = lex.text := by
  obtain ⟨ht, hstop⟩ := h
  generalize hs : (tk, lex) = s at ht
  generalize hs' : (tk', lex') = s' at ht
  induction ht generalizing tk lex with
  | nil s => rw [(Prod.mk.inj (hs.trans hs'.symm)).2]
  | @cons s s1 s' t ts hread ht ih =>
    subst hs hs'
    rw [ih rfl rfl]
    exact (text_of_reads hread fun hstuck => hstuck.not_stops s1.1 ⟨ts, tk', lex', ht, hstop⟩).1

/-- A text is read to an end, and every token moves the position, exactly when the lexer is never stuck. -/
theorem terminates_iff (sql : List UInt8) (tk : Token) :
    Terminates sql tk ↔ ∀ ts s, Trace (Reads nextToken) (tk, ofText sql) ts s → ¬ Stuck s.2 := by
  refine ⟨fun h ts s ht hstuck => ?_, terminates_of_not_stuck⟩
  obtain ⟨tk', hnext⟩ := hstuck.nextToken_eq s.1
  exact lt_irrefl _ (h.moves ts s tk' (tk', s.2) ht ⟨hnext, rfl⟩)

/-- The text `a` is read as the name `a` again and again. -/
theorem last_word_is_read_forever :
    (¬∃ ts tk' lex', Stops nextToken ⟨.SEMICOLON, .integer 0⟩ (ofText (ascii "a")) ts tk' lex') ∧
    ¬ Terminates (ascii "a") ⟨.SEMICOLON, .integer 0⟩ := by
  have hstuck : Stuck (ofText (ascii "a")) := ⟨97, by decide, Or.inl (by decide)⟩
  have hnot := hstuck.not_stops ⟨.SEMICOLON, .integer 0⟩
  refine ⟨hnot, fun h => ?_⟩
  obtain ⟨ts, tk', lex', hstop, -⟩ := h.stops
  exact hnot ⟨ts, tk', lex', hstop⟩

/-! ## The tokens of a text -/

/-- A text is made of these tokens, and then a text that is blank or that no token is read from. The token before the
text is given. -/
inductive Splits : Token → List UInt8 → List Token → List UInt8 → Prop
  | blank {tk : Token} {text : List UInt8} (h : ∀ y ∈ text, isBlank y = true) : Splits tk text [] text
  | stop {tk : Token} {blanks text : List UInt8} (hb : ∀ y ∈ blanks, isBlank y = true) (h : Unreadable text) :
      Splits tk (blanks ++ text) [] (blanks ++ text)
  | token {tk tk' : Token} {blanks p rest left : List UInt8} {ts : List Token} (hb : ∀ y ∈ blanks, isBlank y = true)
      (h : Spells tk p rest tk') (hs : Splits tk' rest ts left) : Splits tk (blanks ++ (p ++ rest)) (tk' :: ts) left

theorem splits_of_trace {ts : List Token} {s s' : Token × Lex} (ht : Trace (Reads nextToken) s ts s')
    (hstop : (nextToken s'.1 s'.2).1 = false) : Splits s.1 s.2.after ts s'.2.after := by
  induction ht with
  | nil s =>
    have hgo : GoesOn (nextToken s.1 s.2) := fun htrue => absurd htrue (by simp [hstop])
    rcases nextToken_cases hgo with ⟨-, hall | ⟨blanks, text, heq, hb, hno⟩⟩ | ⟨blanks, p, rest, tk', heq, hb, hp⟩
    · exact .blank hall
    · rw [heq]
      exact .stop hb hno
    · have hnext := hp.nextToken_eq hb s.2.before
      rw [← heq] at hnext
      rw [hnext] at hstop
      cases hstop
  | @cons s s1 s' tk ts hread ht ih =>
    obtain ⟨blanks, p, hb, hp, heq, -⟩ := exists_spells hread
      fun hstuck => hstuck.not_stops s1.1 ⟨ts, s'.1, s'.2, ht, hstop⟩
    rw [heq]
    rw [hread.2] at hp ⊢
    exact .token hb hp (ih hstop)

theorem Splits.exists_stops {tk : Token} {text left : List UInt8} {ts : List Token} (h : Splits tk text ts left)
    (before : List UInt8) : ∃ tk' lex', Stops nextToken tk ⟨before, text⟩ ts tk' lex' ∧ lex'.after = left := by
  induction h generalizing before with
  | @blank tk text h =>
    refine ⟨tk, _, ⟨Trace.nil _, ?_⟩, rfl⟩
    rw [Lex.nextToken_eq, scan_all h, readToken_zero]
  | @stop tk _ _ hb h => exact ⟨tk, _, ⟨Trace.nil _, h.nextToken_eq hb tk before⟩, rfl⟩
  | token hb h _ ih =>
    obtain ⟨tk', lex', ⟨ht, hf⟩, hleft⟩ := ih _
    exact ⟨tk', lex', ⟨Trace.cons ⟨h.nextToken_eq hb before, rfl⟩ ht, hf⟩, hleft⟩

/-- The lexer stops where the text is divided. -/
theorem stops_iff_splits (tk : Token) (lex : Lex) (ts : List Token) (left : List UInt8) :
    (∃ tk' lex', Stops nextToken tk lex ts tk' lex' ∧ lex'.after = left) ↔ Splits tk lex.after ts left := by
  refine ⟨?_, fun h => h.exists_stops lex.before⟩
  rintro ⟨tk', lex', ⟨ht, hf⟩, rfl⟩
  exact splits_of_trace ht hf

end Lex

namespace SqlExecute

variable {δ : Type}

/-- The text that is left after the last token. -/
def leftOver (sql : List UInt8) (lex : Lex) : List UInt8 := sql.drop lex.before.length

theorem leftOver_eq {sql : List UInt8} {tk tk' : Token} {ts : List Token} {lex : Lex}
    (h : Stops Lex.nextToken tk (Lex.ofText sql) ts tk' lex) :
    leftOver sql lex = lex.after ++ sql.drop (Lex.ofText sql).after.length := by
  have htext : lex.text = (Lex.ofText sql).text := Lex.text_of_stops h
  have hsql : sql = lex.before.reverse ++ (lex.after ++ sql.drop (Lex.ofText sql).after.length) := by
    rw [← List.append_assoc, show lex.before.reverse ++ lex.after = lex.text from rfl, htext]
    exact List.prefix_append_drop (List.take_prefix _ sql)
  rw [leftOver]
  nth_rewrite 1 [hsql]
  rw [← List.length_reverse, List.drop_left]

theorem splits_unique {fuel : ℕ} {tk tk' : Token} {lex lex' : Lex} {ts ts' : List Token} {left : List UInt8}
    (h : readAll Lex.nextToken fuel tk lex = some (ts, tk', lex')) (hs : Lex.Splits tk lex.after ts' left) :
    ts' = ts := by
  obtain ⟨tk2, lex2, hstop, -⟩ := (Lex.stops_iff_splits tk lex ts' left).mpr hs
  exact ((stops_of_readAll h).unique hstop).1

end SqlExecute

end Dawn
